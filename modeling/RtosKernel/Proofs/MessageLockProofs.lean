import RtosKernel.Messages
import RtosKernel.Proofs.PrintingProofs
import RtosKernel.Proofs.QueueProofs
import RtosKernel.Proofs.TaskSleepProofs

/-!
# The two tasks: their statements and locks

What a statement of the loops does is said once (`LoopEffect`). Whichever task runs, the queue and the display
mutex are then used as `queue.c` and `mutex.c` expect (`LocksInv`).
-/

namespace RtosKernel

open Lib

/-! ## Places in the loops -/

/-- The place in `queue_push` or `queue_pop`. -/
def LoopPc.queuePc : LoopPc → QueuePc
  | .queue pc => pc
  | .queueWait pc _ => pc
  | _ => .idle

theorem LoopPc.queuePc_queue (pc : QueuePc) : (LoopPc.queue pc).queuePc = pc := rfl

/-- The task has returned from `mutex_lock(&vga_mutex)` and not yet from `mutex_unlock`. -/
def LoopPc.showing : LoopPc → Bool
  | .put _ _ | .unlock => true
  | _ => false

/-- The number that the call on the queue has left is not on the screen yet. -/
def LoopPc.toShow : LoopPc → Bool
  | .lock | .lockWait _ | .put _ _ => true
  | _ => false

/-- The round has pushed its number and has not counted it yet. -/
def LoopPc.sent : LoopPc → Bool
  | .lock | .lockWait _ | .put _ _ | .unlock | .incr => true
  | _ => false

/-- A call of `task_sleep` in the loop: where the task is in it, where it goes on, and the argument. -/
inductive IsSleep (body : LoopBody) (num : UInt32) : (SleepPc → LoopPc) → LoopPc → UInt32 → Prop
  | queue (pc : QueuePc) : IsSleep body num (.queueWait pc) (.queue pc) 1
  | lock : IsSleep body num .lockWait .lock 1
  | round : IsSleep body num .sleep (.queue (body.call num)) body.ticks

/-- What a statement of the loop does in `s`. -/
inductive LoopEffect (env : TaskEnv) (body : LoopBody) (esp : UInt32) (s : Messages) : Messages → Prop
  | queue (pc : QueuePc) (hpc : (s.frame s.current).pc = .queue pc) :
      LoopEffect env body esp s (queueCallExec body s pc)
  | ticks {here : SleepPc → LoopPc} {after : LoopPc} {n : UInt32}
      (hs : IsSleep body (s.frame s.current).num here after n) (hpc : (s.frame s.current).pc = here .ticks) :
      LoopEffect env body esp s ((s.setCurrent { s.task with sleepTicks := n }).goto (here .state))
  | state {here : SleepPc → LoopPc} {after : LoopPc} {n : UInt32}
      (hs : IsSleep body (s.frame s.current).num here after n) (hpc : (s.frame s.current).pc = here .state) :
      LoopEffect env body esp s ((s.setCurrent { s.task with state := .sleeping }).goto (here .trap))
  | trap {here : SleepPc → LoopPc} {after : LoopPc} {n : UInt32} {k : Kernel}
      (hs : IsSleep body (s.frame s.current).num here after n) (hpc : (s.frame s.current).pc = here .trap)
      (hk : irqHandler env.body env.fuel esp s.kernel = .ok k) :
      LoopEffect env body esp s { s.goto after with kernel := k }
  | take {mx : Mutex} (hpc : (s.frame s.current).pc = .lock) (hmx : mutexTryLock s.current s.vgaMutex = some mx) :
      LoopEffect env body esp s
        { s.goto (.put 0 (decimal (s.frame s.current).num.toNat ++ [32])) with vgaMutex := mx }
  | busy (hpc : (s.frame s.current).pc = .lock) (hmx : mutexTryLock s.current s.vgaMutex = none) :
      LoopEffect env body esp s (s.goto (.lockWait .ticks))
  | put {j : ℕ} {c : UInt8} {rest : List UInt8} (hpc : (s.frame s.current).pc = .put j (c :: rest)) :
      LoopEffect env body esp s
        { s.goto (.put (j + 1) rest) with screen := vgaPutAt body.row (26 + j) c vgaColorDefault s.screen }
  | putEnd {j : ℕ} (hpc : (s.frame s.current).pc = .put j []) :
      LoopEffect env body esp s
        (s.setFrame { s.frame s.current with pc := .unlock, shown := some (s.frame s.current).num })
  | unlock (hpc : (s.frame s.current).pc = .unlock) :
      LoopEffect env body esp s { s.goto body.next with vgaMutex := mutexUnlock s.current s.vgaMutex }
  | incr (hpc : (s.frame s.current).pc = .incr) :
      LoopEffect env body esp s
        (s.setFrame { s.frame s.current with pc := .sleep .ticks, num := (s.frame s.current).num + 1 })

@[simp] theorem Messages.setCurrent_frame (s : Messages) (v : Task) : (s.setCurrent v).frame = s.frame := rfl

@[simp] theorem Messages.setCurrent_current (s : Messages) (v : Task) : (s.setCurrent v).current = s.current := rfl

@[simp] theorem Messages.goto_frame (s : Messages) (pc : LoopPc) :
    (s.goto pc).frame = Function.update s.frame s.current { s.frame s.current with pc := pc } := rfl

@[simp] theorem Messages.setFrame_frame (s : Messages) (f : Frame) :
    (s.setFrame f).frame = Function.update s.frame s.current f := rfl

section Effects

variable {env : TaskEnv} {body : LoopBody} {esp : UInt32} {buf : ℕ → UInt8} {s s' : Messages}

/-- `terminal_write_dec` stores the numeral and a blank. -/
theorem writeDecText_eq (buf : ℕ → UInt8) (n : UInt32) : writeDecText buf n = .ok (decimal n.toNat ++ [32]) := by
  unfold writeDecText
  by_cases h0 : n = 0
  · subst h0
    have hzero : decimal (0 : UInt32).toNat = [48] := decimal_of_lt (by decide)
    rw [if_pos rfl, hzero, pure_eq_ok]
    rfl
  · obtain ⟨buf', he, hdigits⟩ := putDigits_spec 12 (by decide) h0 buf
    rw [if_neg h0, he, ok_bind]
    simp only [pure_eq_ok]
    congr 2
    apply List.ext_getElem
    · simp
    · intro j hj hj'
      rw [List.getElem_map, List.getElem_range, hdigits j hj', List.getD_eq_getElem _ _ hj']

/-- The stores of the tasks, one after the other, are those of `terminal_write_dec`. -/
theorem terminalWriteDec_stores (buf : ℕ → UInt8) (n : UInt32) (row : Int32) (s : Terminal) :
    ∃ text, writeDecText buf n = .ok text ∧
      terminalWriteDec buf n row 26 s = .ok ((List.range text.length).foldl
        (fun s (j : ℕ) => vgaPutAt row.toInt (26 + j) (text.getD j 0) vgaColorDefault s) s) := by
  have hlen := decimal_length_le n.toNat_lt
  have hcol {j : ℕ} (hj : j ≤ 10) : ((26 : Int32) + Int32.ofNat j).toInt = 26 + j :=
    column_toInt (by decide) (by show (26 : ℤ) + j ≤ 80; omega)
  refine ⟨_, writeDecText_eq buf n, ?_⟩
  rw [terminalWriteDec_eq, List.length_append, List.length_singleton, List.range_succ, List.foldl_append]
  simp only [List.foldl_cons, List.foldl_nil]
  rw [hcol hlen, List.getD_append_right _ _ _ _ le_rfl, Nat.sub_self, terminalWriteAt, terminalWriteAtCol]
  congr 2
  apply List.foldl_ext
  intro t j hj
  have hj' : j < (decimal n.toNat).length := List.mem_range.mp hj
  rw [hcol (by omega), List.getD_append _ _ _ _ hj']

/-- The statements of `task_sleep` return if `schedule` does. -/
theorem sleepExec_effect {k : Kernel} (hk : irqHandler env.body env.fuel esp s.kernel = .ok k)
    {here : SleepPc → LoopPc} {after : LoopPc} {n : UInt32} {p : SleepPc}
    (hs : IsSleep body (s.frame s.current).num here after n) (hpc : (s.frame s.current).pc = here p) :
    ∃ s', sleepExec env n esp here after s p = .ok s' ∧ LoopEffect env body esp s s' := by
  cases p with
  | ticks => exact ⟨_, rfl, .ticks hs hpc⟩
  | state => exact ⟨_, rfl, .state hs hpc⟩
  | trap =>
    refine ⟨{ s.goto after with kernel := k }, ?_, .trap hs hpc hk⟩
    rw [sleepExec, messageIrq]
    have hkernel : (s.goto after).kernel = s.kernel := rfl
    rw [hkernel, hk]
    rfl

/-- **Every statement of a loop returns, with one of these effects.** -/
theorem loopExec_effect {k : Kernel} (hk : irqHandler env.body env.fuel esp s.kernel = .ok k) :
    ∃ s', loopExec env body esp buf s = .ok s' ∧ LoopEffect env body esp s s' := by
  cases hpc : (s.frame s.current).pc with
  | queue pc =>
    simp only [loopExec, hpc]
    exact ⟨_, rfl, .queue pc hpc⟩
  | queueWait pc p =>
    simp only [loopExec, hpc]
    exact sleepExec_effect hk (.queue pc) hpc
  | lock =>
    simp only [loopExec, hpc]
    split
    · next mx hmx =>
      rw [writeDecText_eq]
      exact ⟨_, rfl, .take hpc hmx⟩
    · next hmx => exact ⟨_, rfl, .busy hpc hmx⟩
  | lockWait p =>
    simp only [loopExec, hpc]
    exact sleepExec_effect hk .lock hpc
  | put j rest =>
    cases rest with
    | nil =>
      simp only [loopExec, hpc]
      exact ⟨_, rfl, .putEnd hpc⟩
    | cons c rest =>
      simp only [loopExec, hpc]
      exact ⟨_, rfl, .put hpc⟩
  | unlock =>
    simp only [loopExec, hpc]
    exact ⟨_, rfl, .unlock hpc⟩
  | incr =>
    simp only [loopExec, hpc]
    exact ⟨_, rfl, .incr hpc⟩
  | sleep p =>
    simp only [loopExec, hpc]
    exact sleepExec_effect hk .round hpc

end Effects

/-! ## The queue and the display mutex -/

/-- Where each task is in the functions of the queue. -/
def queuePcs (frame : TaskRef → Frame) : TaskRef → QueuePc := fun t => (frame t).pc.queuePc

/-- The queue is in the middle of at most one call, and the display mutex is held by the task that shows. -/
structure LocksInv (s : Messages) : Prop where
  queue : ∃ o items, QueueInv s.msgQueue (queuePcs s.frame) s.events o items
  vga : ∃ o, s.vgaMutex = heldMutex o ∧ ∀ t, (s.frame t).pc.showing = true ↔ o = some t

/-- The task is in neither of the two critical sections, nor in a call on the queue. -/
def LoopPc.Apart (pc : LoopPc) : Prop := pc.queuePc = .idle ∧ pc.showing = false

/-- The loop makes its call on the queue from outside, and leaves both sections before the next round. -/
structure LoopBody.Lawful (body : LoopBody) : Prop where
  call : ∀ n, (body.call n).inside = false
  returned : ∀ e n, (body.returned e n).1.Apart
  next : body.next.Apart

theorem taskA_lawful : taskA.Lawful := ⟨fun _ => rfl, fun _ _ => ⟨rfl, rfl⟩, ⟨rfl, rfl⟩⟩

theorem taskB_lawful : taskB.Lawful := by
  refine ⟨fun _ => rfl, fun e n => ?_, ⟨rfl, rfl⟩⟩
  cases e with
  | pushed v => exact ⟨rfl, rfl⟩
  | full v => exact ⟨rfl, rfl⟩
  | popped v => exact ⟨rfl, rfl⟩
  | empty => exact ⟨rfl, rfl⟩

/-- `task_a`. -/
abbrev refA : TaskRef := .pool ⟨0, by decide⟩

/-- `task_b`. -/
abbrev refB : TaskRef := .pool ⟨1, by decide⟩

theorem loopOf_cases {t : TaskRef} {body : LoopBody} (h : loopOf t = some body) :
    (t = refA ∧ body = taskA) ∨ (t = refB ∧ body = taskB) := by
  cases t with
  | mainTask => cases h
  | pool i =>
    rw [loopOf] at h
    split_ifs at h with h0 h1
    · exact .inl ⟨congrArg TaskRef.pool h0, (Option.some.inj h).symm⟩
    · exact .inr ⟨congrArg TaskRef.pool h1, (Option.some.inj h).symm⟩

theorem loopOf_lawful {t : TaskRef} {body : LoopBody} (h : loopOf t = some body) : body.Lawful := by
  rcases loopOf_cases h with ⟨-, rfl⟩ | ⟨-, rfl⟩
  · exact taskA_lawful
  · exact taskB_lawful

section Locks

variable {env : TaskEnv} {body : LoopBody} {esp : UInt32} {s s' : Messages} {frame : TaskRef → Frame} {t : TaskRef}
  {f : Frame}

theorem queuePcs_update : queuePcs (Function.update frame t f) = Function.update (queuePcs frame) t f.pc.queuePc := by
  funext u
  by_cases hu : u = t
  · subst hu
    simp [queuePcs]
  · simp [queuePcs, hu]

/-- The places in a call of `task_sleep` differ in nothing that the locks depend on. -/
theorem IsSleep.same {num n : UInt32} {here : SleepPc → LoopPc} {after : LoopPc} (h : IsSleep body num here after n)
    (p p' : SleepPc) : (here p).queuePc = (here p').queuePc ∧ (here p).showing = (here p').showing := by
  cases h <;> exact ⟨rfl, rfl⟩

theorem IsSleep.after_cases {num n : UInt32} {here : SleepPc → LoopPc} {after : LoopPc}
    (h : IsSleep body num here after n) (p : SleepPc) :
    after.showing = (here p).showing ∧
      (after.queuePc = (here p).queuePc ∨ (here p).queuePc = .idle ∧ after.queuePc = body.call num) := by
  cases h with
  | queue pc => exact ⟨rfl, .inl rfl⟩
  | lock => exact ⟨rfl, .inl rfl⟩
  | round => exact ⟨rfl, .inr ⟨rfl, rfl⟩⟩

/-- A statement that touches neither the queue nor the mutex. -/
theorem LocksInv.same (h : LocksInv s) (t : TaskRef) (hq : s'.msgQueue = s.msgQueue) (he : s'.events = s.events)
    (hv : s'.vgaMutex = s.vgaMutex) (hf : s'.frame = Function.update s.frame t f)
    (hpc : f.pc.queuePc = (s.frame t).pc.queuePc ∨ (s.frame t).pc.queuePc.inside = false ∧ f.pc.queuePc.inside = false)
    (hs : f.pc.showing = (s.frame t).pc.showing) : LocksInv s' := by
  obtain ⟨⟨o, items, hqueue⟩, ⟨o', hmx, hvga⟩⟩ := h
  refine ⟨⟨o, items, ?_⟩, ⟨o', hv.trans hmx, fun u => ?_⟩⟩
  · rw [hq, he, hf, queuePcs_update]
    rcases hpc with hsame | ⟨hout, hout'⟩
    · rw [hsame]
      have hself : Function.update (queuePcs s.frame) t (s.frame t).pc.queuePc = queuePcs s.frame :=
        Function.update_eq_self ..
      rw [hself]
      exact hqueue
    · exact hqueue.outside hout hout'
  · rw [hf]
    by_cases hu : u = t
    · subst hu
      rw [Function.update_self, hs]
      exact hvga u
    · rw [Function.update_of_ne hu]
      exact hvga u

theorem queueExec_returns {q : Queue} {pc : QueuePc} {e : QueueEvent} (h : (queueExec t q pc).2.2 = some e) :
    (queueExec t q pc).2.1 = .idle := by
  cases pc with
  | pushLock v =>
    rw [queueExec] at h
    split at h <;> cases h
  | popLock =>
    rw [queueExec] at h
    split at h <;> cases h
  | pushDone v => rfl
  | pushFull v => rfl
  | popDone v => rfl
  | popEmpty => rfl
  | _ => cases h

/-- The places in the queue after a statement of a call on it. -/
theorem queueCallExec_pcs (hb : body.Lawful) (s : Messages) (pc : QueuePc) :
    queuePcs (queueCallExec body s pc).frame =
      Function.update (queuePcs s.frame) s.current (queueExec s.current s.msgQueue pc).2.1 := by
  simp only [queueCallExec, Messages.setFrame, queuePcs_update]
  congr 1
  cases he : (queueExec s.current s.msgQueue pc).2.2 with
  | some e => rw [queueExec_returns he, (hb.returned _ _).1]
  | none =>
    simp only
    split_ifs with hsame
    · exact hsame.symm
    · rfl

theorem queueCallExec_showing (hb : body.Lawful) (s : Messages) (pc : QueuePc) (u : TaskRef)
    (hpc : (s.frame s.current).pc = .queue pc) :
    ((queueCallExec body s pc).frame u).pc.showing = (s.frame u).pc.showing := by
  simp only [queueCallExec, Messages.setFrame]
  by_cases hu : u = s.current
  · subst hu
    rw [Function.update_self, hpc]
    cases he : (queueExec s.current s.msgQueue pc).2.2 with
    | some e => exact (hb.returned _ _).2
    | none =>
      simp only
      split_ifs <;> rfl
  · rw [Function.update_of_ne hu]

/-- A statement of a loop keeps the locks in order, whichever task makes it. -/
theorem LocksInv.step (h : LocksInv s) (hb : body.Lawful) (he : LoopEffect env body esp s s') : LocksInv s' := by
  cases he with
  | queue pc hpc =>
    obtain ⟨⟨o, items, hqueue⟩, ⟨o', hmx, hvga⟩⟩ := h
    refine ⟨?_, o', hmx, fun u => ?_⟩
    · rw [queueCallExec_pcs hb]
      have hplace : queuePcs s.frame s.current = pc := by rw [queuePcs, hpc]; rfl
      have hstep := hqueue.exec s.current
      rw [hplace] at hstep
      exact hstep
    · rw [queueCallExec_showing hb s pc u hpc]
      exact hvga u
  | ticks hs hpc =>
    obtain ⟨hq, hsh⟩ := hs.same .state .ticks
    exact h.same s.current rfl rfl rfl rfl (.inl (by rw [hpc]; exact hq)) (by rw [hpc]; exact hsh)
  | state hs hpc =>
    obtain ⟨hq, hsh⟩ := hs.same .trap .state
    exact h.same s.current rfl rfl rfl rfl (.inl (by rw [hpc]; exact hq)) (by rw [hpc]; exact hsh)
  | trap hs hpc hk =>
    obtain ⟨hsh, hq⟩ := hs.after_cases .trap
    refine h.same s.current rfl rfl rfl rfl ?_ (by rw [hpc]; exact hsh)
    rw [hpc]
    rcases hq with hq | ⟨hidle, hcall⟩
    · exact .inl hq
    · refine .inr ⟨by rw [hidle]; rfl, ?_⟩
      show (_ : LoopPc).queuePc.inside = false
      rw [hcall]
      exact hb.call _
  | take hpc hmx =>
    obtain ⟨hqueue, ⟨o, hheld, hvga⟩⟩ := h
    have hq : LocksInv (s.goto (.lockWait .ticks)) := (LocksInv.mk hqueue ⟨o, hheld, hvga⟩).same s.current rfl rfl rfl rfl
      (.inl (by rw [hpc]; rfl)) (by rw [hpc]; rfl)
    refine ⟨?_, ?_⟩
    · have hsame : queuePcs (s.goto (.put 0 (decimal (s.frame s.current).num.toNat ++ [32]))).frame =
          queuePcs (s.goto (.lockWait .ticks)).frame := by
        simp only [Messages.goto, Messages.setFrame, queuePcs_update]
        rfl
      exact hsame ▸ hq.queue
    · cases o with
      | some u =>
        rw [hheld, mutexTryLock_held] at hmx
        cases hmx
      | none =>
        rw [hheld, mutexTryLock_free] at hmx
        refine ⟨some s.current, (Option.some.inj hmx).symm, fun u => ?_⟩
        show (Function.update s.frame s.current _ u).pc.showing = true ↔ _
        by_cases hu : u = s.current
        · subst hu
          rw [Function.update_self]
          exact iff_of_true rfl rfl
        · rw [Function.update_of_ne hu, hvga u]
          refine iff_of_false (Option.some_ne_none u).symm ?_
          simpa using Ne.symm hu
  | busy hpc hmx => exact h.same s.current rfl rfl rfl rfl (.inl (by rw [hpc]; rfl)) (by rw [hpc]; rfl)
  | put hpc => exact h.same s.current rfl rfl rfl rfl (.inl (by rw [hpc]; rfl)) (by rw [hpc]; rfl)
  | putEnd hpc => exact h.same s.current rfl rfl rfl rfl (.inl (by rw [hpc]; rfl)) (by rw [hpc]; rfl)
  | unlock hpc =>
    obtain ⟨⟨o, items, hqueue⟩, ⟨o', hheld, hvga⟩⟩ := h
    have hcur : o' = some s.current := (hvga s.current).mp (by rw [hpc]; rfl)
    refine ⟨⟨o, items, ?_⟩, none, ?_, fun u => ?_⟩
    · show QueueInv s.msgQueue (queuePcs (Function.update s.frame s.current _)) s.events o items
      rw [queuePcs_update]
      refine hqueue.outside (by rw [queuePcs, hpc]; rfl) ?_
      show body.next.queuePc.inside = false
      rw [hb.next.1]
      rfl
    · show mutexUnlock s.current s.vgaMutex = _
      rw [hheld, mutexUnlock_heldMutex, if_pos hcur]
    · show (Function.update s.frame s.current _ u).pc.showing = true ↔ _
      by_cases hu : u = s.current
      · subst hu
        rw [Function.update_self]
        exact iff_of_false (by rw [hb.next.2]; exact Bool.false_ne_true) (Option.some_ne_none _).symm
      · rw [Function.update_of_ne hu, hvga u, hcur]
        exact iff_of_false (by simpa using Ne.symm hu) (Option.some_ne_none u).symm
  | incr hpc => exact h.same s.current rfl rfl rfl rfl (.inl (by rw [hpc]; rfl)) (by rw [hpc]; rfl)

end Locks

end RtosKernel
