import RtosKernel.Pipe
import RtosKernel.Proofs.MutexProofs

/-!
# Proofs: pipes

What each call does to the list of the values held, with the lock free, and from that the refinement: a
run of the calls that do not block returns, call by call, what a FIFO queue of capacity 256 returns.
-/

namespace RtosKernel

open Lib

/-- Between two calls the lock is free and the indices describe the values held. -/
structure PipeInv (p : Pipe) : Prop where
  idx : RingIdx 256 p.readIdx p.writeIdx p.count
  lock : p.lock = mutexInit

section Calls

variable {p : Pipe} {c : Caller}

/-- The body neither reads nor changes the lock. -/
def IgnoresPipeLock {α : Type} (f : Pipe → α × Pipe) : Prop :=
  ∀ p m, f { p with lock := m } = ((f p).1, { (f p).2 with lock := m })

/-- With the lock free, a call of such a body under the lock is the body. -/
theorem lockPipe_eq {α : Type} {f : Pipe → α × Pipe} (h : IgnoresPipeLock f) (hl : p.lock = mutexInit)
    (hf : 0 < c.fuel) : lockPipe c f p = .ok (f p) := by
  have hkeep : (f p).2.lock = mutexInit := by
    rw [show f p = f { p with lock := p.lock } from rfl, h, hl]
  have hback : { (f p).2 with lock := mutexInit } = (f p).2 := by
    rw [← hkeep]
  rw [lockPipe, mutexLock_init c hl hf, ok_bind, h]
  simp only [mutexUnlock_heldBy, hback, pure_eq_ok]

theorem storeValue_ignoresLock (data : UInt32) : IgnoresPipeLock (storeValue data) := by
  intro p m
  simp only [storeValue]
  split <;> rfl

theorem takeValue_ignoresLock (data : Option UInt32) : IgnoresPipeLock (takeValue data) := by
  intro p m
  simp only [takeValue]
  split <;> rfl

theorem pipeItems_length (h : PipeInv p) : ((pipeItems p).length : ℤ) = p.count := by
  rw [pipeItems, ringItems_length]
  exact Int.toNat_of_nonneg h.idx.count_nonneg

theorem pipeCreate_inv (p : Pipe) : PipeInv (pipeCreate p).2 := ⟨ringIdx_empty (by decide), rfl⟩

theorem pipeWrite_closed (ha : p.active = 0) (data : UInt32) : pipeWrite c data p = .ok (.badf, p) := by
  rw [pipeWrite, if_pos ha]
  rfl

theorem pipeWrite_full (h : PipeInv p) (hf : 0 < c.fuel) (ha : p.active ≠ 0) (hc : p.count = 256)
    (data : UInt32) : pipeWrite c data p = .ok (.busy, p) := by
  have hbody : storeValue data p = (.busy, p) := if_pos (by rw [hc]; decide)
  rw [pipeWrite, if_neg ha, lockPipe_eq (storeValue_ignoresLock data) h.lock hf, ok_bind, hbody]
  rfl

/-- A write into a pipe with room: the value is appended and `not_empty` is posted. -/
theorem pipeWrite_room (h : PipeInv p) (hf : 0 < c.fuel) (ha : p.active ≠ 0) (hc : p.count < 256)
    (data : UInt32) :
    ∃ p', pipeWrite c data p = .ok (.ok, p') ∧ PipeInv p' ∧ pipeItems p' = pipeItems p ++ [data] ∧
      p'.count = p.count + 1 ∧ p'.active = p.active ∧ p'.notFull = p.notFull ∧
      p'.notEmpty = semPost p.notEmpty := by
  have hlt : ¬ p.count ≥ pipeBufferSize := not_le.mpr hc
  have hbody : storeValue data p = (.ok, { p with
      buffer := Function.update p.buffer p.writeIdx data
      writeIdx := (p.writeIdx + 1).tmod pipeBufferSize
      count := p.count + 1 }) := if_neg hlt
  have hcall : pipeWrite c data p = .ok (.ok, { p with
      buffer := Function.update p.buffer p.writeIdx data
      writeIdx := (p.writeIdx + 1).tmod pipeBufferSize
      count := p.count + 1
      notEmpty := semPost p.notEmpty }) := by
    rw [pipeWrite, if_neg ha, lockPipe_eq (storeValue_ignoresLock data) h.lock hf, ok_bind, hbody]
    rfl
  exact ⟨_, hcall, ⟨h.idx.push hc, h.lock⟩, h.idx.items_push hc data, rfl, rfl, rfl, rfl⟩

theorem pipeRead_refused {data : Option UInt32} (ha : p.active = 0 ∨ data = none) :
    pipeRead c data p = .ok ((.inval, data), p) := by
  rw [pipeRead, if_pos ha]
  rfl

theorem pipeRead_empty (h : PipeInv p) (hf : 0 < c.fuel) (ha : p.active ≠ 0) (hc : p.count = 0)
    (old : UInt32) : pipeRead c (some old) p = .ok ((.busy, some old), p) := by
  have hgo : ¬ (p.active = 0 ∨ some old = none) := by simp [ha]
  have hbody : takeValue (some old) p = ((.busy, some old), p) := if_pos hc
  rw [pipeRead, if_neg hgo, lockPipe_eq (takeValue_ignoresLock _) h.lock hf, ok_bind, hbody]
  rfl

/-- A read from a pipe that holds something: the oldest value is taken and `not_full` is posted. -/
theorem pipeRead_take (h : PipeInv p) (hf : 0 < c.fuel) (ha : p.active ≠ 0) (hc : 0 < p.count)
    (old : UInt32) :
    ∃ v p', pipeRead c (some old) p = .ok ((.ok, some v), p') ∧ PipeInv p' ∧
      pipeItems p = v :: pipeItems p' ∧ p'.count = p.count - 1 ∧ p'.active = p.active ∧
      p'.notFull = semPost p.notFull ∧ p'.notEmpty = p.notEmpty := by
  have hgo : ¬ (p.active = 0 ∨ some old = none) := by simp [ha]
  have hbody : takeValue (some old) p = ((.ok, some (p.buffer p.readIdx)), { p with
      readIdx := (p.readIdx + 1).tmod pipeBufferSize, count := p.count - 1 }) := if_neg hc.ne'
  have hcall : pipeRead c (some old) p = .ok ((.ok, some (p.buffer p.readIdx)), { p with
      readIdx := (p.readIdx + 1).tmod pipeBufferSize
      count := p.count - 1
      notFull := semPost p.notFull }) := by
    rw [pipeRead, if_neg hgo, lockPipe_eq (takeValue_ignoresLock _) h.lock hf, ok_bind, hbody]
    rfl
  exact ⟨_, _, hcall, ⟨h.idx.pop hc, h.lock⟩, h.idx.items_pop hc p.buffer, rfl, rfl, rfl, rfl⟩

theorem pipeFlush_eq (h : PipeInv p) (hf : 0 < c.fuel) :
    pipeFlush c p = .ok (.ok, { p with readIdx := 0, writeIdx := 0, count := 0 }) :=
  lockPipe_eq (fun _ _ => rfl) h.lock hf

theorem PipeInv.flush (h : PipeInv p) : PipeInv { p with readIdx := 0, writeIdx := 0, count := 0 } :=
  ⟨ringIdx_empty (by decide), h.lock⟩

theorem pipeClose_eq (h : PipeInv p) (hf : 0 < c.fuel) : pipeClose c p = .ok (.ok, { p with active := 0 }) :=
  lockPipe_eq (fun _ _ => rfl) h.lock hf

theorem pipeGetCount_eq (h : PipeInv p) (hf : 0 < c.fuel) : pipeGetCount c p = .ok (p.count, p) :=
  lockPipe_eq (fun _ _ => rfl) h.lock hf

end Calls

/-! ## Refinement -/

/-- The pipe stands for the queue: its indices are in range and agree with its counter, it holds the
values of the queue, it is closed when the queue is, and its calls have returned what those of the queue
have returned. -/
structure PipeRefines (s : PipeSys) (a : FifoSys) : Prop where
  count_range : 0 ≤ s.pipe.count ∧ s.pipe.count ≤ 256
  read_range : 0 ≤ s.pipe.readIdx ∧ s.pipe.readIdx < 256
  write_range : 0 ≤ s.pipe.writeIdx ∧ s.pipe.writeIdx < 256
  write_eq : s.pipe.writeIdx = (s.pipe.readIdx + s.pipe.count) % 256
  items : pipeItems s.pipe = a.items
  closed : s.pipe.active = 0 ↔ a.closed = true
  results : s.results = a.results
  lock : s.pipe.lock = mutexInit

section Refinement

variable {s : PipeSys} {a : FifoSys} {fuel : ℕ}

theorem PipeRefines.inv (h : PipeRefines s a) : PipeInv s.pipe :=
  ⟨⟨h.count_range.1, h.count_range.2, h.read_range.1, h.read_range.2, h.write_range.1, h.write_range.2,
    h.write_eq⟩, h.lock⟩

theorem PipeRefines.of_inv (h : PipeInv s.pipe) (hi : pipeItems s.pipe = a.items)
    (hc : s.pipe.active = 0 ↔ a.closed = true) (hr : s.results = a.results) : PipeRefines s a :=
  ⟨⟨h.idx.count_nonneg, h.idx.count_le⟩, ⟨h.idx.read_nonneg, h.idx.read_lt⟩,
    ⟨h.idx.write_nonneg, h.idx.write_lt⟩, h.idx.write_eq, hi, hc, hr, h.lock⟩

/-- A call that changes nothing but gives a result. -/
theorem PipeRefines.give (h : PipeRefines s a) (r : PipeResult) :
    PipeRefines { s with results := r :: s.results } (a.give r) :=
  .of_inv h.inv h.items h.closed (congrArg (r :: ·) h.results)

theorem PipeRefines.length (h : PipeRefines s a) : (a.items.length : ℤ) = s.pipe.count := by
  rw [← h.items]
  exact pipeItems_length h.inv

/-! The state after a step, from what the call returned. -/

theorem pipeStep_write_of {who : Caller} {data : UInt32} {e : ErrorT} {p : Pipe}
    (h : pipeWrite (who.withFuel fuel) data s.pipe = .ok (e, p)) :
    pipeStep fuel s (.write who data) = .ok { pipe := p, results := .code e :: s.results } := by
  simp only [pipeStep, h, ok_bind, pure_eq_ok]

theorem pipeStep_read_of {who : Caller} {data v : Option UInt32} {e : ErrorT} {p : Pipe}
    (h : pipeRead (who.withFuel fuel) data s.pipe = .ok ((e, v), p)) :
    pipeStep fuel s (.read who data) = .ok { pipe := p, results := .read e v :: s.results } := by
  simp only [pipeStep, h, ok_bind, pure_eq_ok]

theorem PipeRefines.write (h : PipeRefines s a) (hf : 0 < fuel) (who : Caller) (data : UInt32) :
    ∃ s', pipeStep fuel s (.write who data) = .ok s' ∧ PipeRefines s' (fifoStep a (.write who data)) := by
  have hlen := h.length
  have hle := h.count_range.2
  by_cases ha : s.pipe.active = 0
  · have hcl := h.closed.mp ha
    refine ⟨_, pipeStep_write_of (pipeWrite_closed ha data), ?_⟩
    rw [fifoStep, if_pos hcl]
    exact h.give _
  · have hop : ¬ a.closed = true := fun hcl => ha (h.closed.mpr hcl)
    by_cases hc : s.pipe.count < 256
    · have hroom : a.items.length < 256 := by omega
      obtain ⟨p', hw, hinv, hitems, -, hact, -, -⟩ :=
        @pipeWrite_room s.pipe (who.withFuel fuel) h.inv hf ha hc data
      refine ⟨_, pipeStep_write_of hw, ?_⟩
      rw [fifoStep, if_neg hop, if_pos hroom]
      refine .of_inv hinv ?_ ?_ (congrArg (_ :: ·) h.results)
      · rw [hitems, h.items]
        rfl
      · rw [hact]
        exact h.closed
    · have hfull : ¬ a.items.length < 256 := by omega
      have hw := @pipeWrite_full s.pipe (who.withFuel fuel) h.inv hf ha (by omega) data
      refine ⟨_, pipeStep_write_of hw, ?_⟩
      rw [fifoStep, if_neg hop, if_neg hfull]
      exact h.give _

theorem PipeRefines.read (h : PipeRefines s a) (hf : 0 < fuel) (who : Caller) (data : Option UInt32) :
    ∃ s', pipeStep fuel s (.read who data) = .ok s' ∧ PipeRefines s' (fifoStep a (.read who data)) := by
  have hlen := h.length
  cases data with
  | none =>
    refine ⟨_, pipeStep_read_of (pipeRead_refused (.inr rfl)), ?_⟩
    exact h.give _
  | some old =>
    by_cases ha : s.pipe.active = 0
    · have hcl := h.closed.mp ha
      refine ⟨_, pipeStep_read_of (pipeRead_refused (.inl ha)), ?_⟩
      rw [fifoStep, if_pos hcl]
      exact h.give _
    · have hop : ¬ a.closed = true := fun hcl => ha (h.closed.mpr hcl)
      rw [fifoStep, if_neg hop]
      cases hq : a.items with
      | nil =>
        have hc : s.pipe.count = 0 := by
          rw [← hlen, hq]
          rfl
        have hw := @pipeRead_empty s.pipe (who.withFuel fuel) h.inv hf ha hc old
        refine ⟨_, pipeStep_read_of hw, ?_⟩
        exact h.give _
      | cons v vs =>
        have hc : 0 < s.pipe.count := by
          rw [← hlen, hq]
          simp only [List.length_cons]
          omega
        obtain ⟨w, p', hw, hinv, hitems, -, hact, -, -⟩ :=
          @pipeRead_take s.pipe (who.withFuel fuel) h.inv hf ha hc old
        rw [h.items, hq] at hitems
        obtain ⟨rfl, rfl⟩ := List.cons.inj hitems
        refine ⟨_, pipeStep_read_of hw, ?_⟩
        refine .of_inv hinv rfl ?_ (congrArg (_ :: ·) h.results)
        rw [hact]
        exact h.closed

/-- Every call returns, with the result that the queue gives, and the pipe goes on standing for the
queue. -/
theorem pipeStep_refines (hf : 0 < fuel) (h : PipeRefines s a) (op : PipeOp) :
    ∃ s', pipeStep fuel s op = .ok s' ∧ PipeRefines s' (fifoStep a op) := by
  have hlen := h.length
  cases op with
  | write who data => exact h.write hf who data
  | read who data => exact h.read hf who data
  | flush who =>
    have hw := @pipeFlush_eq s.pipe (who.withFuel fuel) h.inv hf
    refine ⟨{ pipe := { s.pipe with readIdx := 0, writeIdx := 0, count := 0 }
              results := .code .ok :: s.results }, by simp only [pipeStep, hw, ok_bind, pure_eq_ok], ?_⟩
    exact .of_inv h.inv.flush rfl h.closed (congrArg (_ :: ·) h.results)
  | close who =>
    have hw := @pipeClose_eq s.pipe (who.withFuel fuel) h.inv hf
    refine ⟨{ pipe := { s.pipe with active := 0 }, results := .code .ok :: s.results },
      by simp only [pipeStep, hw, ok_bind, pure_eq_ok], ?_⟩
    exact .of_inv ⟨h.inv.idx, h.lock⟩ h.items (iff_of_true rfl rfl) (congrArg (_ :: ·) h.results)
  | getCount who =>
    have hw := @pipeGetCount_eq s.pipe (who.withFuel fuel) h.inv hf
    refine ⟨{ s with results := .number s.pipe.count :: s.results },
      by simp only [pipeStep, hw, ok_bind, pure_eq_ok], ?_⟩
    rw [fifoStep, hlen]
    exact h.give _
  | isEmpty who =>
    have hw := @pipeGetCount_eq s.pipe (who.withFuel fuel) h.inv hf
    refine ⟨{ s with results := .test (decide (s.pipe.count = 0)) :: s.results },
      by simp only [pipeStep, pipeIsEmpty, hw, ok_bind, pure_eq_ok], ?_⟩
    have hb : a.items.isEmpty = decide (s.pipe.count = 0) := by
      rw [← hlen, Bool.eq_iff_iff, List.isEmpty_iff, decide_eq_true_iff, ← List.length_eq_zero_iff]
      omega
    rw [fifoStep, hb]
    exact h.give _
  | isFull who =>
    have hw := @pipeGetCount_eq s.pipe (who.withFuel fuel) h.inv hf
    refine ⟨{ s with results := .test (decide (s.pipe.count ≥ pipeBufferSize)) :: s.results },
      by simp only [pipeStep, pipeIsFull, hw, ok_bind, pure_eq_ok], ?_⟩
    have hb : decide (a.items.length ≥ 256) = decide (s.pipe.count ≥ pipeBufferSize) := by
      rw [← hlen, decide_eq_decide, pipeBufferSize]
      omega
    rw [fifoStep, hb]
    exact h.give _

theorem newPipe_refines (p : Pipe) : PipeRefines (newPipe p) newFifo :=
  .of_inv (pipeCreate_inv p) rfl (iff_of_false one_ne_zero (by decide)) rfl

end Refinement

/-- **A pipe is a FIFO queue of capacity 256: after any run of calls on a new pipe its indices are in range
and agree, it holds the values of the queue, and its calls have returned what those of the queue
return.** -/
theorem pipe_refines_fifo {fuel : ℕ} (hf : 0 < fuel) (p : Pipe) (ops : List PipeOp) :
    ∃ s, run (pipeStep fuel) (newPipe p) ops = .ok s ∧ PipeRefines s (ops.foldl fifoStep newFifo) :=
  run_refines (newPipe_refines p) (fun _ _ op h => pipeStep_refines hf h op) ops

theorem pipe_refines_fifo_write_read :
    0 < 1 ∧ ∃ s, run (pipeStep 1) (newPipe zeroPipe) [.write (soloCaller .mainTask) 7,
        .read (soloCaller .mainTask) (some 0), .read (soloCaller .mainTask) (some 5)] = .ok s ∧
      PipeRefines s
        { items := [], closed := false, results := [.read .busy (some 5), .read .ok (some 7), .code .ok] } :=
  ⟨one_pos, pipe_refines_fifo one_pos _ _⟩

end RtosKernel
