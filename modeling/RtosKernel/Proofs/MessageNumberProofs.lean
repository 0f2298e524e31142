import RtosKernel.Proofs.MessageLockProofs

/-!
# The two tasks: the numbers

The numbers of `task_a` go into the queue in order (`SenderInv`), and each task shows the last number that it has
offered or received (`ShowInv`). The effect of a statement on the task that executes it is a `FrameEffect`.
-/

namespace RtosKernel

open Lib

/-! ## The numbers -/

/-- The value of the `queue_push` that the task is in. -/
def QueuePc.pushes : QueuePc → Option UInt32
  | .pushLock v | .pushTest v | .pushStore v | .pushTail v | .pushCount v | .pushDone v | .pushFull v => some v
  | _ => none

/-- The task is in `queue_pop`. -/
def QueuePc.pops : QueuePc → Bool
  | .popLock | .popTest | .popLoad | .popHead _ | .popCount _ | .popDone _ | .popEmpty => true
  | _ => false

/-- The statement of the queue call that the task is in, if it is in one. -/
def LoopPc.calling : LoopPc → Option QueuePc
  | .queue pc => some pc
  | .queueWait pc _ => some pc
  | _ => none

/-- A task has shown the last of the numbers, or is about to show it. -/
structure ShowInv (f : Frame) (values : List UInt32) : Prop where
  due : f.pc.toShow = true → values.getLast? = some f.num
  shown : f.pc.toShow = false → f.shown = values.getLast?

/-- `task_a`: it has offered the numbers below its counter to the queue, in order. -/
structure SenderInv (f : Frame) (events : List QueueEvent) : Prop where
  call : ∀ pc, f.pc.calling = some pc → pc.pushes = some f.num
  counted : ∃ n, offeredValues events = counterValues n ∧
    UInt32.ofNat n = if f.pc.sent = true then f.num + 1 else f.num
  display : ShowInv f (offeredValues events)

/-- `task_b`. -/
structure ReceiverInv (f : Frame) (events : List QueueEvent) : Prop where
  call : ∀ pc, f.pc.calling = some pc → pc.pops = true
  no_incr : f.pc ≠ .incr
  display : ShowInv f (poppedValues events)

section Numbers

variable {env : TaskEnv} {body : LoopBody} {esp : UInt32} {s s' : Messages} {t : TaskRef} {f : Frame} {q : Queue}
  {pc : QueuePc} {v : UInt32} {events : List QueueEvent} {values : List UInt32}

/-- The statements of `queue_push`. -/
theorem queueExec_pushes (h : pc.pushes = some v) :
    ((queueExec t q pc).2.2 = none ∧ (queueExec t q pc).2.1.pushes = some v) ∨
      (queueExec t q pc).2.2 = some (.pushed v) ∨ (queueExec t q pc).2.2 = some (.full v) := by
  cases pc with
  | pushLock w =>
    rw [queueExec]
    split
    · exact .inl ⟨rfl, h⟩
    · exact .inl ⟨rfl, h⟩
  | pushTest w =>
    rw [queueExec]
    split
    · exact .inl ⟨rfl, h⟩
    · exact .inl ⟨rfl, h⟩
  | pushStore w => exact .inl ⟨rfl, h⟩
  | pushTail w => exact .inl ⟨rfl, h⟩
  | pushCount w => exact .inl ⟨rfl, h⟩
  | pushDone w =>
    obtain rfl : w = v := Option.some.inj h
    exact .inr (.inl rfl)
  | pushFull w =>
    obtain rfl : w = v := Option.some.inj h
    exact .inr (.inr rfl)
  | _ => cases h

/-- The statements of `queue_pop`. -/
theorem queueExec_pops (h : pc.pops = true) :
    ((queueExec t q pc).2.2 = none ∧ (queueExec t q pc).2.1.pops = true) ∨
      (∃ v, (queueExec t q pc).2.2 = some (.popped v)) ∨ (queueExec t q pc).2.2 = some .empty := by
  cases pc with
  | popLock =>
    rw [queueExec]
    split
    · exact .inl ⟨rfl, rfl⟩
    · exact .inl ⟨rfl, rfl⟩
  | popTest =>
    rw [queueExec]
    split
    · exact .inl ⟨rfl, rfl⟩
    · exact .inl ⟨rfl, rfl⟩
  | popLoad => exact .inl ⟨rfl, rfl⟩
  | popHead w => exact .inl ⟨rfl, rfl⟩
  | popCount w => exact .inl ⟨rfl, rfl⟩
  | popDone w => exact .inr (.inl ⟨w, rfl⟩)
  | popEmpty => exact .inr (.inr rfl)
  | _ => cases h

theorem counterValues_succ (n : ℕ) : counterValues (n + 1) = counterValues n ++ [UInt32.ofNat n] := by
  simp [counterValues, List.range_succ]

/-- A statement behind which nothing is new to show. -/
theorem ShowInv.goto {f' : Frame} (h : ShowInv f values) (hpc : f'.pc.toShow = f.pc.toShow)
    (hnum : f.pc.toShow = true → f'.num = f.num) (hshown : f'.shown = f.shown) : ShowInv f' values := by
  refine ⟨fun hd => ?_, fun hd => ?_⟩
  · rw [hpc] at hd
    rw [hnum hd]
    exact h.due hd
  · rw [hpc] at hd
    rw [hshown]
    exact h.shown hd

/-- A statement that neither leaves the call on the queue nor touches the number. -/
theorem SenderInv.goto {pc' : LoopPc} (h : SenderInv f events)
    (hcall : ∀ pc, pc'.calling = some pc → pc.pushes = some f.num) (hsent : pc'.sent = f.pc.sent)
    (hshow : pc'.toShow = f.pc.toShow) : SenderInv { f with pc := pc' } events := by
  obtain ⟨n, hn, hnum⟩ := h.counted
  refine ⟨hcall, ⟨n, hn, ?_⟩, h.display.goto hshow (fun _ => rfl) rfl⟩
  rw [hnum]
  simp only [hsent]

theorem ReceiverInv.goto {pc' : LoopPc} (h : ReceiverInv f events)
    (hcall : ∀ pc, pc'.calling = some pc → pc.pops = true) (hincr : pc' ≠ .incr)
    (hshow : pc'.toShow = f.pc.toShow) : ReceiverInv { f with pc := pc' } events :=
  ⟨hcall, hincr, h.display.goto hshow (fun _ => rfl) rfl⟩

/-- What a statement makes of the task that executes it, and the event of the queue, if there is one. -/
inductive FrameEffect (body : LoopBody) (f : Frame) : List QueueEvent → Frame → Prop
  | move {pc' : LoopPc} (hq : pc'.calling = f.pc.calling ∨ pc'.calling = some (body.call f.num))
      (hsent : pc'.sent = f.pc.sent) (hshow : pc'.toShow = f.pc.toShow) (hincr : pc' ≠ .incr) :
      FrameEffect body f [] { f with pc := pc' }
  | inCall {pc : QueuePc} {pc' : LoopPc} {t : TaskRef} {q : Queue} (hpc : f.pc = .queue pc)
      (hnone : (queueExec t q pc).2.2 = none) (hq : pc'.calling = some (queueExec t q pc).2.1)
      (hsent : pc'.sent = false) (hshow : pc'.toShow = false) (hincr : pc' ≠ .incr) : FrameEffect body f [] { f with pc := pc' }
  | returns {pc : QueuePc} {t : TaskRef} {q : Queue} {e : QueueEvent} (hpc : f.pc = .queue pc)
      (hsome : (queueExec t q pc).2.2 = some e) :
      FrameEffect body f [e] { f with pc := (body.returned e f.num).1, num := (body.returned e f.num).2 }
  | putEnd {j : ℕ} (hpc : f.pc = .put j []) : FrameEffect body f [] { f with pc := .unlock, shown := some f.num }
  | unlock (hpc : f.pc = .unlock) : FrameEffect body f [] { f with pc := body.next }
  | incr (hpc : f.pc = .incr) : FrameEffect body f [] { f with pc := .sleep .ticks, num := f.num + 1 }

/-- The places in a call of `task_sleep`, and the one behind it, for the numbers. -/
theorem IsSleep.numbers {num n : UInt32} {here : SleepPc → LoopPc} {after : LoopPc} (h : IsSleep body num here after n) :
    (∀ p p', (here p).sent = (here p').sent ∧ (here p).toShow = (here p').toShow) ∧
      (∀ p, after.sent = (here p).sent ∧ after.toShow = (here p).toShow) ∧ (∀ p, here p ≠ .incr) ∧ after ≠ .incr := by
  cases h with
  | queue pc => exact ⟨fun _ _ => ⟨rfl, rfl⟩, fun _ => ⟨rfl, rfl⟩, fun p => by simp, by simp⟩
  | lock => exact ⟨fun _ _ => ⟨rfl, rfl⟩, fun _ => ⟨rfl, rfl⟩, fun p => by simp, by simp⟩
  | round => exact ⟨fun _ _ => ⟨rfl, rfl⟩, fun _ => ⟨rfl, rfl⟩, fun p => by simp, by simp⟩

theorem IsSleep.calling {num n : UInt32} {here : SleepPc → LoopPc} {after : LoopPc} (h : IsSleep body num here after n)
    (p p' : SleepPc) : (here p).calling = (here p').calling ∧
      (after.calling = (here p).calling ∨ after.calling = some (body.call num)) := by
  cases h with
  | queue pc => exact ⟨rfl, .inl rfl⟩
  | lock => exact ⟨rfl, .inl rfl⟩
  | round => exact ⟨rfl, .inr rfl⟩

/-- A statement of the call on the queue. -/
theorem queueCallExec_frame (hpc : (s.frame s.current).pc = .queue pc) :
    ∃ new, (queueCallExec body s pc).events = s.events ++ new ∧
      FrameEffect body (s.frame s.current) new ((queueCallExec body s pc).frame s.current) := by
  cases he : (queueExec s.current s.msgQueue pc).2.2 with
  | some e =>
    refine ⟨[e], ?_, ?_⟩
    · simp only [queueCallExec, he, Option.toList_some]
    · simp only [queueCallExec, Messages.setFrame, he, Function.update_self]
      exact .returns hpc he
  | none =>
    refine ⟨[], ?_, ?_⟩
    · simp only [queueCallExec, he, Option.toList_none]
    · simp only [queueCallExec, Messages.setFrame, he, Function.update_self]
      split_ifs with hsame
      · exact .inCall hpc he (congrArg some hsame.symm) rfl rfl (by simp)
      · exact .inCall hpc he rfl rfl rfl (by simp)

/-- The effect on the task that runs. -/
theorem LoopEffect.frame (h : LoopEffect env body esp s s') :
    ∃ new, s'.events = s.events ++ new ∧ FrameEffect body (s.frame s.current) new (s'.frame s.current) := by
  have hmove {pc' : LoopPc} {e : FrameEffect body (s.frame s.current) [] { s.frame s.current with pc := pc' }} :
      FrameEffect body (s.frame s.current) []
        (Function.update s.frame s.current { s.frame s.current with pc := pc' } s.current) := by
    rw [Function.update_self]
    exact e
  cases h with
  | queue pc hpc => exact queueCallExec_frame hpc
  | ticks hs hpc =>
    obtain ⟨hplaces, -, hincr, -⟩ := hs.numbers
    refine ⟨[], (List.append_nil _).symm, @hmove _ (.move (.inl ?_) ?_ ?_ (hincr _))⟩
    · rw [hpc, (hs.calling .state .ticks).1]
    · rw [hpc, (hplaces .state .ticks).1]
    · rw [hpc, (hplaces .state .ticks).2]
  | state hs hpc =>
    obtain ⟨hplaces, -, hincr, -⟩ := hs.numbers
    refine ⟨[], (List.append_nil _).symm, @hmove _ (.move (.inl ?_) ?_ ?_ (hincr _))⟩
    · rw [hpc, (hs.calling .trap .state).1]
    · rw [hpc, (hplaces .trap .state).1]
    · rw [hpc, (hplaces .trap .state).2]
  | trap hs hpc hk =>
    obtain ⟨-, hafter, -, hincr⟩ := hs.numbers
    refine ⟨[], (List.append_nil _).symm, @hmove _ (.move ?_ ?_ ?_ hincr)⟩
    · rw [hpc]
      exact (hs.calling .trap .trap).2
    · rw [hpc, (hafter .trap).1]
    · rw [hpc, (hafter .trap).2]
  | take hpc hmx =>
    refine ⟨[], (List.append_nil _).symm, @hmove _ (.move (.inl ?_) ?_ ?_ (by simp))⟩ <;> rw [hpc] <;> rfl
  | busy hpc hmx =>
    refine ⟨[], (List.append_nil _).symm, @hmove _ (.move (.inl ?_) ?_ ?_ (by simp))⟩ <;> rw [hpc] <;> rfl
  | put hpc =>
    refine ⟨[], (List.append_nil _).symm, @hmove _ (.move (.inl ?_) ?_ ?_ (by simp))⟩ <;> rw [hpc] <;> rfl
  | putEnd hpc =>
    refine ⟨[], (List.append_nil _).symm, ?_⟩
    simp only [Messages.setFrame, Function.update_self]
    exact .putEnd hpc
  | unlock hpc =>
    refine ⟨[], (List.append_nil _).symm, ?_⟩
    simp only [Messages.goto, Messages.setFrame, Function.update_self]
    exact .unlock hpc
  | incr hpc =>
    refine ⟨[], (List.append_nil _).symm, ?_⟩
    simp only [Messages.setFrame, Function.update_self]
    exact .incr hpc

theorem offeredValues_append (events new : List QueueEvent) :
    offeredValues (events ++ new) = offeredValues events ++ offeredValues new := List.filterMap_append ..

theorem poppedValues_append (events new : List QueueEvent) :
    poppedValues (events ++ new) = poppedValues events ++ poppedValues new := List.filterMap_append ..

/-- `queue_push` returns: the number is offered. -/
theorem SenderInv.offer {e : QueueEvent} (h : SenderInv f events) (hsent : f.pc.sent = false)
    (he : offeredValues [e] = [f.num]) : SenderInv { f with pc := .lock } (events ++ [e]) := by
  obtain ⟨n, hn, hnum⟩ := h.counted
  have hnum' : UInt32.ofNat n = f.num := by
    rw [hnum, hsent]
    rfl
  have hvalues : offeredValues (events ++ [e]) = counterValues (n + 1) := by
    rw [offeredValues_append, he, hn, counterValues_succ, hnum']
  refine ⟨fun pc hpc => (by cases hpc), ⟨n + 1, hvalues, ?_⟩, ⟨fun _ => ?_, fun hd => absurd hd (by simp [LoopPc.toShow])⟩⟩
  · rw [UInt32.ofNat_add, hnum']
    rfl
  · rw [offeredValues_append, he, List.getLast?_append, List.getLast?_singleton]
    rfl

/-- A task that has shown its number has nothing to show. -/
theorem ShowInv.putEnd (h : ShowInv f values) (hpc : f.pc.toShow = true) :
    ShowInv { f with pc := .unlock, shown := some f.num } values :=
  ⟨fun hd => absurd hd (by simp [LoopPc.toShow]), fun _ => (h.due hpc).symm⟩

/-- A statement of `task_a`. -/
theorem SenderInv.step {f' : Frame} {new : List QueueEvent} (h : SenderInv f events) (he : FrameEffect taskA f new f') :
    SenderInv f' (events ++ new) ∧ poppedValues new = [] := by
  have hcall := h.call
  cases he with
  | move hq hsent hshow hincr =>
    rw [List.append_nil]
    refine ⟨h.goto (fun pc hpc => ?_) hsent hshow, rfl⟩
    rcases hq with hq | hq
    · exact hcall pc (hq ▸ hpc)
    · obtain rfl : .pushLock f.num = pc := Option.some.inj (hq.symm.trans hpc)
      rfl
  | @inCall pc pc' t q hpc hnone hq hsent hshow hincr =>
    rw [List.append_nil]
    refine ⟨h.goto (fun pc₁ hpc₁ => ?_) (by rw [hsent, hpc]; rfl) (by rw [hshow, hpc]; rfl), rfl⟩
    obtain rfl := Option.some.inj (hq.symm.trans hpc₁)
    have hpush := hcall pc (by rw [hpc]; rfl)
    rcases queueExec_pushes (t := t) (q := q) hpush with ⟨-, hplace⟩ | hsome | hsome
    · exact hplace
    · rw [hsome] at hnone
      cases hnone
    · rw [hsome] at hnone
      cases hnone
  | @returns pc t q e hpc hsome =>
    have hsent : f.pc.sent = false := by rw [hpc]; rfl
    have hpush := hcall pc (by rw [hpc]; rfl)
    rcases queueExec_pushes (t := t) (q := q) hpush with ⟨hnone, -⟩ | he | he
    · rw [hnone] at hsome
      cases hsome
    · obtain rfl : .pushed f.num = e := Option.some.inj (he.symm.trans hsome)
      exact ⟨h.offer hsent rfl, rfl⟩
    · obtain rfl : .full f.num = e := Option.some.inj (he.symm.trans hsome)
      exact ⟨h.offer hsent rfl, rfl⟩
  | putEnd hpc =>
    rw [List.append_nil]
    obtain ⟨n, hn, hnum⟩ := h.counted
    rw [hpc] at hnum
    exact ⟨⟨fun pc hpc => (by cases hpc), ⟨n, hn, hnum⟩, h.display.putEnd (by rw [hpc]; rfl)⟩, rfl⟩
  | unlock hpc =>
    rw [List.append_nil]
    exact ⟨h.goto (fun pc hpc => (by cases hpc)) (by rw [hpc]; rfl) (by rw [hpc]; rfl), rfl⟩
  | incr hpc =>
    rw [List.append_nil]
    obtain ⟨n, hn, hnum⟩ := h.counted
    rw [hpc] at hnum
    refine ⟨⟨fun pc hpc => (by cases hpc), ⟨n, hn, hnum⟩, h.display.goto (by rw [hpc]; rfl) (fun hd => ?_) rfl⟩, rfl⟩
    rw [hpc] at hd
    cases hd

/-- A statement of `task_b`. -/
theorem ReceiverInv.step {f' : Frame} {new : List QueueEvent} (h : ReceiverInv f events)
    (he : FrameEffect taskB f new f') : ReceiverInv f' (events ++ new) ∧ offeredValues new = [] := by
  have hcall := h.call
  cases he with
  | move hq hsent hshow hincr =>
    rw [List.append_nil]
    refine ⟨h.goto (fun pc hpc => ?_) hincr hshow, rfl⟩
    rcases hq with hq | hq
    · exact hcall pc (hq ▸ hpc)
    · obtain rfl : .popLock = pc := Option.some.inj (hq.symm.trans hpc)
      rfl
  | @inCall pc pc' t q hpc hnone hq hsent hshow hincr =>
    rw [List.append_nil]
    refine ⟨h.goto (fun pc₁ hpc₁ => ?_) hincr (by rw [hshow, hpc]; rfl), rfl⟩
    obtain rfl := Option.some.inj (hq.symm.trans hpc₁)
    have hpop := hcall pc (by rw [hpc]; rfl)
    rcases queueExec_pops (t := t) (q := q) hpop with ⟨-, hplace⟩ | ⟨v, hsome⟩ | hsome
    · exact hplace
    · rw [hsome] at hnone
      cases hnone
    · rw [hsome] at hnone
      cases hnone
  | @returns pc t q e hpc hsome =>
    have hshow : f.pc.toShow = false := by rw [hpc]; rfl
    have hpop := hcall pc (by rw [hpc]; rfl)
    rcases queueExec_pops (t := t) (q := q) hpop with ⟨hnone, -⟩ | ⟨v, he⟩ | he
    · rw [hnone] at hsome
      cases hsome
    · obtain rfl : .popped v = e := Option.some.inj (he.symm.trans hsome)
      refine ⟨⟨fun pc hpc => (by cases hpc), by simp [taskB], fun _ => ?_,
        fun hd => absurd hd (by simp [taskB, LoopPc.toShow])⟩, rfl⟩
      rw [poppedValues_append, List.getLast?_append]
      rfl
    · obtain rfl : .empty = e := Option.some.inj (he.symm.trans hsome)
      have hvalues : poppedValues (events ++ [.empty]) = poppedValues events := by
        rw [poppedValues_append]
        exact List.append_nil _
      refine ⟨⟨fun pc hpc => (by cases hpc), by simp [taskB], ?_⟩, rfl⟩
      rw [hvalues]
      exact h.display.goto (by rw [hshow]; rfl) (fun _ => rfl) rfl
  | putEnd hpc =>
    rw [List.append_nil]
    exact ⟨⟨fun pc hpc => (by cases hpc), by simp, h.display.putEnd (by rw [hpc]; rfl)⟩, rfl⟩
  | unlock hpc =>
    rw [List.append_nil]
    exact ⟨h.goto (fun pc hpc => (by cases hpc)) (by simp [taskB]) (by rw [hpc]; rfl), rfl⟩
  | incr hpc => exact absurd hpc h.no_incr

end Numbers

end RtosKernel
