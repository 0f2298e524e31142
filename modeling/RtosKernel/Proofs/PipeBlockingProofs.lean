import RtosKernel.Proofs.PipeProofs

/-!
# The blocking calls of a pipe

`not_full` and `not_empty` are binary semaphores, while a pipe holds up to 256 values and has calls that
take or store a value without a permit. A run of calls on an open pipe is followed here by three numbers,
the values held and the two permits (`Permits`).

* `pipe_write_blocking` waits only on a full pipe (`WritesAtOnce`), as long as it is only called on a pipe
  with at most one free place and no flush finds `not_full` taken (`KeepsNotFull`): nothing but a read
  gives its permit back.
* `pipe_read_blocking` waits exactly on an empty pipe (`ReadsAtOnce`), as long as the blocking call takes
  the last value only, the other read never does, and no flush removes a value (`KeepsNotEmpty`).

Both conditions are exact.
-/

namespace RtosKernel

open Lib

/-! ## Binary semaphores -/

/-- A semaphore with at most one permit. -/
structure IsBinary (s : Semaphore) : Prop where
  max : s.max = 1
  count : s.count = 0 ∨ s.count = 1

section Binary

variable {s : Semaphore}

theorem IsBinary.eq_or_eq (h : IsBinary s) : s = ⟨0, 1⟩ ∨ s = ⟨1, 1⟩ := by
  rcases h.count with hc | hc
  · exact .inl (congrArg₂ Semaphore.mk hc h.max)
  · exact .inr (congrArg₂ Semaphore.mk hc h.max)

/-- A post leaves the permit there. -/
theorem IsBinary.post (h : IsBinary s) : semPost s = ⟨1, 1⟩ := by
  rcases h.eq_or_eq with rfl | rfl
  · decide
  · decide

/-- An attempt takes the permit or, if there is none, has to wait. -/
theorem IsBinary.take (h : IsBinary s) : semTake s = if 0 < s.count then some ⟨0, 1⟩ else none := by
  rcases h.eq_or_eq with rfl | rfl
  · decide
  · decide

theorem isBinary_one : IsBinary ⟨1, 1⟩ := ⟨rfl, .inr rfl⟩

theorem isBinary_zero : IsBinary ⟨0, 1⟩ := ⟨rfl, .inl rfl⟩

end Binary

/-! ## The permits -/

/-- An open pipe between two calls. -/
structure OpenPipe (p : Pipe) : Prop where
  inv : PipeInv p
  active : p.active ≠ 0
  notFull : IsBinary p.notFull
  notEmpty : IsBinary p.notEmpty

/-- The number of values held, and whether each semaphore has its permit. -/
structure Permits where
  held : ℤ
  notFull : Bool
  notEmpty : Bool
  deriving DecidableEq

/-- The permits of a pipe. -/
def permits (p : Pipe) : Permits :=
  { held := p.count, notFull := decide (0 < p.notFull.count), notEmpty := decide (0 < p.notEmpty.count) }

/-- A `pipe_write`, on the permits. -/
def Permits.write (n : Permits) : Permits :=
  if n.held < 256 then { n with held := n.held + 1, notEmpty := true } else n

/-- A `pipe_read`, on the permits. -/
def Permits.read (n : Permits) : Permits :=
  if 0 < n.held then { n with held := n.held - 1, notFull := true } else n

/-- A read gives the permit of `not_full` back, or takes nothing. -/
theorem Permits.read_notFull {n : Permits} (h : n.notFull = false → n.held = 256) :
    n.read.notFull = false → n.read.held = 256 := by
  rw [Permits.read]
  split_ifs
  · intro hn
    cases hn
  · exact h

/-- A write gives the permit of `not_empty` back, or stores nothing. -/
theorem Permits.write_notEmpty {n : Permits} (h0 : 0 ≤ n.held) (h : n.notEmpty = true ↔ 0 < n.held) :
    n.write.notEmpty = true ↔ 0 < n.write.held := by
  rw [Permits.write]
  split_ifs
  · exact iff_of_true rfl (show 0 < n.held + 1 by omega)
  · exact h

/-- What a call does to the permits. -/
def Permits.call (n : Permits) : PipeCall → Permits
  | .write .. => n.write
  | .writeBlocking .. => if n.notFull then { n with notFull := false }.write else n
  | .read _ none => n
  | .read _ (some _) => n.read
  | .readBlocking _ none => n
  | .readBlocking _ (some _) => if n.notEmpty then { n with notEmpty := false }.read else n
  | .flush _ => { n with held := 0 }

section Calls

variable {p : Pipe} {c : Caller} {fuel : ℕ}

theorem pipeCreate_open (p : Pipe) : OpenPipe (pipeCreate p).2 :=
  ⟨pipeCreate_inv p, one_ne_zero, isBinary_one, isBinary_zero⟩

theorem OpenPipe.held_range (h : OpenPipe p) : 0 ≤ p.count ∧ p.count ≤ 256 :=
  ⟨h.inv.idx.count_nonneg, h.inv.idx.count_le⟩

theorem OpenPipe.write (h : OpenPipe p) (hf : 0 < c.fuel) (data : UInt32) :
    ∃ e p', pipeWrite c data p = .ok (e, p') ∧ OpenPipe p' ∧ permits p' = (permits p).write := by
  obtain ⟨-, hle⟩ := h.held_range
  by_cases hc : p.count < 256
  · obtain ⟨p', hw, hinv, -, hcount, hact, hnf, hne⟩ := pipeWrite_room h.inv hf h.active hc data
    rw [h.notEmpty.post] at hne
    refine ⟨_, p', hw, ⟨hinv, hact ▸ h.active, hnf ▸ h.notFull, hne ▸ isBinary_one⟩, ?_⟩
    simp only [permits, Permits.write, hc, if_true, hcount, hnf, hne]
    rfl
  · refine ⟨_, p, pipeWrite_full h.inv hf h.active (by omega) data, h, ?_⟩
    simp only [permits, Permits.write, hc, if_false]

theorem OpenPipe.read (h : OpenPipe p) (hf : 0 < c.fuel) (old : UInt32) :
    ∃ r p', pipeRead c (some old) p = .ok (r, p') ∧ OpenPipe p' ∧ permits p' = (permits p).read := by
  obtain ⟨hge, -⟩ := h.held_range
  by_cases hc : 0 < p.count
  · obtain ⟨v, p', hw, hinv, -, hcount, hact, hnf, hne⟩ := pipeRead_take h.inv hf h.active hc old
    rw [h.notFull.post] at hnf
    refine ⟨_, p', hw, ⟨hinv, hact ▸ h.active, hnf ▸ isBinary_one, hne ▸ h.notEmpty⟩, ?_⟩
    simp only [permits, Permits.read, hc, if_true, hcount, hnf, hne]
    rfl
  · refine ⟨_, p, pipeRead_empty h.inv hf h.active (by omega) old, h, ?_⟩
    simp only [permits, Permits.read, hc, if_false]

/-- The pipe with the permit of `not_full` taken. -/
theorem OpenPipe.take_notFull (h : OpenPipe p) : OpenPipe { p with notFull := ⟨0, 1⟩ } :=
  ⟨⟨h.inv.idx, h.inv.lock⟩, h.active, isBinary_zero, h.notEmpty⟩

theorem OpenPipe.take_notEmpty (h : OpenPipe p) : OpenPipe { p with notEmpty := ⟨0, 1⟩ } :=
  ⟨⟨h.inv.idx, h.inv.lock⟩, h.active, h.notFull, isBinary_zero⟩

theorem pipeWriteBlocking_wait (h : OpenPipe p) (hn : ¬ 0 < p.notFull.count) (data : UInt32) :
    pipeWriteBlocking c data p = .ok none := by
  rw [pipeWriteBlocking, if_neg h.active, h.notFull.take, if_neg hn]
  rfl

theorem pipeWriteBlocking_go (h : OpenPipe p) (hn : 0 < p.notFull.count) (data : UInt32) :
    pipeWriteBlocking c data p = (do
      let r ← pipeWrite c data { p with notFull := ⟨0, 1⟩ }
      pure (some r)) := by
  rw [pipeWriteBlocking, if_neg h.active, h.notFull.take, if_pos hn]

theorem pipeReadBlocking_wait (h : OpenPipe p) (hn : ¬ 0 < p.notEmpty.count) (old : UInt32) :
    pipeReadBlocking c (some old) p = .ok none := by
  rw [pipeReadBlocking, if_neg (by simp [h.active]), h.notEmpty.take, if_neg hn]
  rfl

theorem pipeReadBlocking_go (h : OpenPipe p) (hn : 0 < p.notEmpty.count) (old : UInt32) :
    pipeReadBlocking c (some old) p = (do
      let r ← pipeRead c (some old) { p with notEmpty := ⟨0, 1⟩ }
      pure (some r)) := by
  rw [pipeReadBlocking, if_neg (by simp [h.active]), h.notEmpty.take, if_pos hn]

/-- **Every call on an open pipe returns or waits, and does to the permits what `Permits.call` says.** -/
theorem pipeCallStep_permits (hf : 0 < fuel) (h : OpenPipe p) (call : PipeCall) :
    ∃ p', pipeCallStep fuel p call = .ok p' ∧ OpenPipe p' ∧ permits p' = (permits p).call call := by
  cases call with
  | write who data =>
    obtain ⟨e, p', hw, ho, hp⟩ := @OpenPipe.write p (who.withFuel fuel) h hf data
    exact ⟨p', by simp only [pipeCallStep, hw, ok_bind, pure_eq_ok], ho, hp⟩
  | writeBlocking who data =>
    by_cases hn : 0 < p.notFull.count
    · obtain ⟨e, p', hw, ho, hp⟩ := @OpenPipe.write _ (who.withFuel fuel) h.take_notFull hf data
      refine ⟨p', ?_, ho, ?_⟩
      · simp only [pipeCallStep, pipeWriteBlocking_go h hn, hw, ok_bind, pure_eq_ok, Option.map_some,
          Option.getD_some]
      · rw [hp, Permits.call, if_pos (by simpa [permits] using hn)]
        rfl
    · refine ⟨p, ?_, h, ?_⟩
      · simp only [pipeCallStep, pipeWriteBlocking_wait h hn, ok_bind, pure_eq_ok, Option.map_none,
          Option.getD_none]
      · rw [Permits.call, if_neg (by simpa [permits] using hn)]
  | read who data =>
    cases data with
    | none =>
      refine ⟨p, ?_, h, rfl⟩
      simp only [pipeCallStep, pipeRead_refused (.inr rfl), ok_bind, pure_eq_ok]
    | some old =>
      obtain ⟨r, p', hw, ho, hp⟩ := @OpenPipe.read p (who.withFuel fuel) h hf old
      exact ⟨p', by simp only [pipeCallStep, hw, ok_bind, pure_eq_ok], ho, hp⟩
  | readBlocking who data =>
    cases data with
    | none =>
      refine ⟨p, ?_, h, rfl⟩
      simp only [pipeCallStep, pipeReadBlocking, or_true, if_true, ok_bind, pure_eq_ok, Option.map_some,
        Option.getD_some]
    | some old =>
      by_cases hn : 0 < p.notEmpty.count
      · obtain ⟨r, p', hw, ho, hp⟩ := @OpenPipe.read _ (who.withFuel fuel) h.take_notEmpty hf old
        refine ⟨p', ?_, ho, ?_⟩
        · simp only [pipeCallStep, pipeReadBlocking_go h hn, hw, ok_bind, pure_eq_ok, Option.map_some,
            Option.getD_some]
        · rw [hp, Permits.call, if_pos (by simpa [permits] using hn)]
          rfl
      · refine ⟨p, ?_, h, ?_⟩
        · simp only [pipeCallStep, pipeReadBlocking_wait h hn, ok_bind, pure_eq_ok, Option.map_none,
            Option.getD_none]
        · rw [Permits.call, if_neg (by simpa [permits] using hn)]
  | flush who =>
    have hw := @pipeFlush_eq p (who.withFuel fuel) h.inv hf
    refine ⟨{ p with readIdx := 0, writeIdx := 0, count := 0 }, ?_, ?_, rfl⟩
    · simp only [pipeCallStep, hw, ok_bind, pure_eq_ok]
    · exact ⟨h.inv.flush, h.active, h.notFull, h.notEmpty⟩

end Calls

/-! ## `pipe_write_blocking` -/

/-- If the pipe has room, a `pipe_write_blocking` call finds a permit, stores its value and returns
`E_OK`. -/
def WritesAtOnce (p : Pipe) : Prop :=
  (pipeItems p).length < 256 → 0 < p.notFull.count ∧
    ∀ (c : Caller) (data : UInt32), 0 < c.fuel →
      ∃ p', pipeWriteBlocking c data p = .ok (some (.ok, p')) ∧ pipeItems p' = pipeItems p ++ [data]

/-- A `pipe_write_blocking` call is made on a pipe with at most one free place, and a `pipe_flush` call
with the permit of `not_full` there. -/
def KeepsNotFull (p : Pipe) : PipeCall → Prop
  | .writeBlocking .. => 255 ≤ p.count
  | .flush _ => 0 < p.notFull.count
  | _ => True

/-- Without the permit of `not_full` the pipe is full. -/
def NotFullInv (p : Pipe) : Prop := OpenPipe p ∧ ((permits p).notFull = false → (permits p).held = 256)

section NotFull

variable {p p' : Pipe} {fuel : ℕ}

theorem NotFullInv.writesAtOnce (h : NotFullInv p) : WritesAtOnce p := by
  intro hlen
  obtain ⟨ho, hfull⟩ := h
  have hcount := pipeItems_length ho.inv
  have hn : 0 < p.notFull.count := by
    by_contra hn
    have hheld : p.count = 256 := hfull (by simpa [permits] using hn)
    omega
  refine ⟨hn, fun c data hf => ?_⟩
  have hroom : p.count < 256 := by omega
  obtain ⟨p', hw, -, hitems, -⟩ := pipeWrite_room ho.take_notFull.inv hf ho.active hroom data
  refine ⟨p', ?_, hitems⟩
  rw [pipeWriteBlocking_go ho hn, hw]
  rfl

/-- A step keeps `not_full` right exactly under `KeepsNotFull`. -/
theorem pipeCallStep_notFull (hf : 0 < fuel) (h : NotFullInv p) (call : PipeCall) :
    ∃ p', pipeCallStep fuel p call = .ok p' ∧ OpenPipe p' ∧
      (((permits p').notFull = false → (permits p').held = 256) ↔ KeepsNotFull p call) := by
  obtain ⟨ho, hfull⟩ := h
  obtain ⟨hge, hle⟩ := ho.held_range
  obtain ⟨p', hs, ho', hp⟩ := pipeCallStep_permits hf ho call
  refine ⟨p', hs, ho', ?_⟩
  rw [hp]
  have hheld : (permits p).held = p.count := rfl
  have hnf : (permits p).notFull = true ↔ 0 < p.notFull.count := by simp [permits]
  cases call with
  | write who data =>
    refine iff_of_true ?_ trivial
    simp only [Permits.call, Permits.write]
    split
    · intro hn
      have := hfull hn
      omega
    · exact hfull
  | writeBlocking who data =>
    simp only [Permits.call, KeepsNotFull, Permits.write]
    cases hn : (permits p).notFull with
    | false =>
      have := hfull hn
      refine iff_of_true (fun _ => this) (by omega)
    | true =>
      simp only [if_true]
      split
      · simp only [true_imp_iff, hheld]
        omega
      · simp only [true_imp_iff, hheld]
        omega
  | read who data =>
    refine iff_of_true ?_ (by cases data <;> trivial)
    cases data with
    | none => exact hfull
    | some old => exact Permits.read_notFull hfull
  | readBlocking who data =>
    refine iff_of_true ?_ (by cases data <;> trivial)
    cases data with
    | none => exact hfull
    | some old =>
      rw [Permits.call]
      split_ifs
      · exact Permits.read_notFull hfull
      · exact hfull
  | flush who =>
    simp only [Permits.call, KeepsNotFull]
    rw [← hnf]
    cases (permits p).notFull with
    | false => exact iff_of_false (fun h => absurd (h rfl) (by decide)) (by decide)
    | true => exact iff_of_true (fun h => by cases h) rfl

end NotFull

/-- **In every state of a run on a new pipe `pipe_write_blocking` waits only on a full pipe, exactly when
every such call of the run is made with at most one free place and every `pipe_flush` with the permit of
`not_full` there.** -/
theorem write_blocking_iff {fuel : ℕ} (hf : 0 < fuel) (p : Pipe) (calls : List PipeCall) :
    Along (pipeCallStep fuel) (pipeCreate p).2 WritesAtOnce calls ↔
      AllSteps (pipeCallStep fuel) (pipeCreate p).2 KeepsNotFull calls := by
  refine along_iff_of_spec (I := NotFullInv) ⟨pipeCreate_open p, fun h => ?_⟩ (fun p h => h.writesAtOnce) ?_ calls
  · cases h
  · intro p call h
    obtain ⟨p', hs, ho, hiff⟩ := pipeCallStep_notFull hf h call
    refine ⟨p', hs, fun hC => ⟨ho, hiff.mpr hC⟩, fun hP => hiff.mp fun hn => ?_⟩
    by_contra hne
    have hlen := pipeItems_length ho.inv
    have hle := ho.held_range.2
    have hheld : (permits p').held = p'.count := rfl
    have hpos := (hP (by omega)).1
    simp [permits, hpos] at hn

theorem write_blocking_writes_only :
    0 < 1 ∧ Along (pipeCallStep 1) (pipeCreate zeroPipe).2 WritesAtOnce
      [.write (soloCaller .mainTask) 1, .read (soloCaller .mainTask) (some 0),
        .flush (soloCaller .mainTask)] := by
  refine ⟨one_pos, (write_blocking_iff one_pos _ _).mpr ?_⟩
  refine allSteps_cons.mpr ⟨trivial, fun p hp => allSteps_cons.mpr ⟨trivial, fun p' hp' =>
    allSteps_cons.mpr ⟨?_, fun _ _ => allSteps_nil⟩⟩⟩
  obtain rfl := Except.ok.inj hp
  obtain rfl := Except.ok.inj hp'
  show (0 : Int32) < 1
  decide

/-- A second `pipe_write_blocking` has to wait although the pipe holds one value. -/
theorem write_blocking_waits_with_room :
    ¬ Along (pipeCallStep 1) (pipeCreate zeroPipe).2 WritesAtOnce
      [.writeBlocking (soloCaller .mainTask) 1] := by
  intro h
  obtain ⟨p, hp, hP⟩ := h _ List.prefix_rfl
  rw [run_singleton] at hp
  obtain rfl := Except.ok.inj hp
  have hroom : (1 : ℕ) < 256 := by decide
  rw [WritesAtOnce, pipeItems, ringItems_length] at hP
  exact absurd (hP hroom).1 (by decide)

/-! ## `pipe_read_blocking` -/

/-- `not_empty` has its permit exactly when a value is held. So `pipe_read_blocking` does not wait while a
value is held, and a call that has got past its wait returns `E_OK` with the oldest value. -/
structure ReadsAtOnce (p : Pipe) : Prop where
  permit : 0 < p.notEmpty.count ↔ 0 < p.count
  available : 0 < p.count → ∀ (c : Caller) (old : UInt32), 0 < c.fuel →
    ∃ r p', pipeReadBlocking c (some old) p = .ok (some (r, p'))
  returns : ∀ (c : Caller) (old : UInt32) r p', 0 < c.fuel →
    pipeReadBlocking c (some old) p = .ok (some (r, p')) →
      ∃ v, r = (.ok, some v) ∧ pipeItems p = v :: pipeItems p'

/-- The blocking read takes the last value only, the other read never does, and a `pipe_flush` is made on
an empty pipe. -/
def KeepsNotEmpty (p : Pipe) : PipeCall → Prop
  | .read _ data => data ≠ none → p.count ≠ 1
  | .readBlocking _ data => data ≠ none → p.count ≤ 1
  | .flush _ => p.count = 0
  | _ => True

/-- The permit of `not_empty` is there exactly when a value is held. -/
def NotEmptyInv (p : Pipe) : Prop := OpenPipe p ∧ ((permits p).notEmpty = true ↔ 0 < (permits p).held)

section NotEmpty

variable {p p' : Pipe} {fuel : ℕ}

theorem NotEmptyInv.readsAtOnce (h : NotEmptyInv p) : ReadsAtOnce p := by
  obtain ⟨ho, hiff⟩ := h
  have hpermit : 0 < p.notEmpty.count ↔ 0 < p.count := by simpa [permits] using hiff
  refine ⟨hpermit, fun hc c old hf => ?_, fun c old r p' hf hr => ?_⟩
  · obtain ⟨r, p', hw, -, -⟩ := ho.take_notEmpty.read hf old
    exact ⟨r, p', by rw [pipeReadBlocking_go ho (hpermit.mpr hc), hw]; rfl⟩
  · by_cases hn : 0 < p.notEmpty.count
    · have hc := hpermit.mp hn
      obtain ⟨v, p'', hw, -, hitems, -⟩ := pipeRead_take ho.take_notEmpty.inv hf ho.active hc old
      rw [pipeReadBlocking_go ho hn, hw] at hr
      obtain ⟨rfl, rfl⟩ := Prod.mk.inj (Option.some.inj (Except.ok.inj hr))
      exact ⟨v, rfl, hitems⟩
    · rw [pipeReadBlocking_wait ho hn] at hr
      cases hr

/-- A step keeps `not_empty` right exactly under `KeepsNotEmpty`. -/
theorem pipeCallStep_notEmpty (hf : 0 < fuel) (h : NotEmptyInv p) (call : PipeCall) :
    ∃ p', pipeCallStep fuel p call = .ok p' ∧ OpenPipe p' ∧
      (((permits p').notEmpty = true ↔ 0 < (permits p').held) ↔ KeepsNotEmpty p call) := by
  obtain ⟨ho, hiff⟩ := h
  obtain ⟨hge, hle⟩ := ho.held_range
  obtain ⟨p', hs, ho', hp⟩ := pipeCallStep_permits hf ho call
  refine ⟨p', hs, ho', ?_⟩
  rw [hp]
  have hheld : (permits p).held = p.count := rfl
  cases call with
  | write who data =>
    exact iff_of_true (Permits.write_notEmpty hge hiff) trivial
  | writeBlocking who data =>
    refine iff_of_true ?_ trivial
    rw [Permits.call]
    split_ifs
    · exact Permits.write_notEmpty hge hiff
    · exact hiff
  | read who data =>
    cases data with
    | none => exact iff_of_true hiff fun h => absurd rfl h
    | some old =>
      simp only [Permits.call, Permits.read, KeepsNotEmpty, ne_eq, reduceCtorEq, not_false_eq_true,
        true_imp_iff]
      split
      · show ((permits p).notEmpty = true ↔ 0 < (permits p).held - 1) ↔ ¬ p.count = 1
        rw [hiff]
        omega
      · refine iff_of_true hiff ?_
        omega
  | readBlocking who data =>
    cases data with
    | none => exact iff_of_true hiff fun h => absurd rfl h
    | some old =>
      simp only [Permits.call, Permits.read, KeepsNotEmpty, ne_eq, reduceCtorEq, not_false_eq_true,
        true_imp_iff]
      by_cases hn : (permits p).notEmpty = true
      · have hpos := hiff.mp hn
        simp only [hn, hpos, if_true, Bool.false_eq_true, false_iff]
        omega
      · have hnone : ¬ 0 < (permits p).held := fun h => hn (hiff.mpr h)
        rw [if_neg hn]
        refine iff_of_true hiff ?_
        omega
  | flush who =>
    simp only [Permits.call, KeepsNotEmpty]
    rw [hiff]
    omega

end NotEmpty

/-- **In every state of a run on a new pipe `pipe_read_blocking` waits exactly when the pipe is empty and
otherwise returns the oldest value, exactly when in the run the blocking read only ever takes the last
value, the other read never does, and every `pipe_flush` is made on an empty pipe.** -/
theorem read_blocking_iff {fuel : ℕ} (hf : 0 < fuel) (p : Pipe) (calls : List PipeCall) :
    Along (pipeCallStep fuel) (pipeCreate p).2 ReadsAtOnce calls ↔
      AllSteps (pipeCallStep fuel) (pipeCreate p).2 KeepsNotEmpty calls := by
  refine along_iff_of_spec (I := NotEmptyInv) ⟨pipeCreate_open p, ?_⟩ (fun p h => h.readsAtOnce) ?_ calls
  · exact iff_of_false (fun h => by cases h) (lt_irrefl 0)
  · intro p call h
    obtain ⟨p', hs, ho, hiff⟩ := pipeCallStep_notEmpty hf h call
    refine ⟨p', hs, fun hC => ⟨ho, hiff.mpr hC⟩, ?_⟩
    intro hP
    exact hiff.mp (by simpa [permits] using hP.permit)

theorem read_blocking_one_value :
    0 < 1 ∧ Along (pipeCallStep 1) (pipeCreate zeroPipe).2 ReadsAtOnce
      [.write (soloCaller .mainTask) 1, .readBlocking (soloCaller .mainTask) (some 0),
        .flush (soloCaller .mainTask)] := by
  refine ⟨one_pos, (read_blocking_iff one_pos _ _).mpr ?_⟩
  refine allSteps_cons.mpr ⟨trivial, fun p hp => allSteps_cons.mpr ⟨fun _ => ?_, fun p' hp' =>
    allSteps_cons.mpr ⟨?_, fun _ _ => allSteps_nil⟩⟩⟩
  · obtain rfl := Except.ok.inj hp
    exact le_refl (1 : ℤ)
  · obtain rfl := Except.ok.inj hp
    obtain rfl := Except.ok.inj hp'
    rfl

/-- Two writes and one blocking read: a value is held, and the next blocking read has to wait. -/
theorem read_blocking_waits_with_value :
    ¬ Along (pipeCallStep 1) (pipeCreate zeroPipe).2 ReadsAtOnce
      [.write (soloCaller .mainTask) 1, .write (soloCaller .mainTask) 2,
        .readBlocking (soloCaller .mainTask) (some 0)] := by
  intro h
  obtain ⟨p, hp, hP⟩ := h _ List.prefix_rfl
  obtain rfl := Except.ok.inj hp
  exact absurd (hP.permit.mpr (by decide)) (by decide)

end RtosKernel
