import RtosKernel.Proofs.MessageNumberProofs

/-!
# The two tasks: what the user sees

The header shows the numbers that are sent and received (`HeaderInv`). Together with the locks and the numbers this
holds at any moment of any run, whichever task runs (`MessageInv`).
-/

namespace RtosKernel

open Lib

/-! ## The header -/

/-- The task is in `terminal_write_dec`. -/
def LoopPc.putting : LoopPc → Bool
  | .put _ _ => true
  | _ => false

/-- The row shows the number that the task has shown, and in the middle of `terminal_write_dec` the characters that
are stored already. -/
structure HeaderInv (row : ℤ) (f : Frame) (screen : Terminal) : Prop where
  full : ∀ n, f.shown = some n → f.pc.putting = false → HeaderShows screen row (decimal n.toNat ++ [32])
  part : ∀ j rest, f.pc = .put j rest → ∃ done, done.length = j ∧ done ++ rest = decimal f.num.toNat ++ [32] ∧
    HeaderShows screen row done

section Header

variable {env : TaskEnv} {body : LoopBody} {esp : UInt32} {s s' : Messages} {f f' : Frame} {row : ℤ} {screen : Terminal}
  {text : List UInt8} {c : UInt8}

theorem HeaderShows.put (h : HeaderShows screen row text) (hrow : 0 ≤ row ∧ row < 25) (hlen : text.length < 54) :
    HeaderShows (vgaPutAt row (26 + text.length) c vgaColorDefault screen) row (text ++ [c]) := by
  intro j hj
  rw [List.length_append, List.length_singleton] at hj
  rw [vgaPutAt_charAt ⟨hrow, by omega⟩ (by omega)]
  split_ifs with hlast
  · obtain rfl : j = text.length := by omega
    simp
  · have hlt : j < text.length := by omega
    rw [List.getD_append _ _ _ _ hlt]
    exact h j hlt

theorem HeaderShows.other (h : HeaderShows screen row text) {row' : ℤ} (hrow : row ≠ row') (hlen : text.length ≤ 54)
    (col : ℤ) : HeaderShows (vgaPutAt row' col c vgaColorDefault screen) row text := by
  intro j hj
  rw [vgaPutAt_other (by omega) (fun h => hrow h.1)]
  exact h j hj

/-- The text of a number, with the blank behind it. -/
theorem numberText_length (n : UInt32) : (decimal n.toNat ++ [32]).length ≤ 11 := by
  have hlen := decimal_length_le n.toNat_lt
  rw [List.length_append, List.length_singleton]
  omega

theorem HeaderInv.keep (h : HeaderInv row f screen) (hold : f.pc.putting = false) (hnew : f'.pc.putting = false)
    (hshown : f'.shown = f.shown) : HeaderInv row f' screen := by
  refine ⟨fun n hn _ => h.full n (hshown ▸ hn) hold, fun j rest hpc => ?_⟩
  rw [hpc] at hnew
  cases hnew

/-- A character in another row. -/
theorem HeaderInv.other (h : HeaderInv row f screen) {row' : ℤ} (hrow : row ≠ row') (col : ℤ) :
    HeaderInv row f (vgaPutAt row' col c vgaColorDefault screen) := by
  refine ⟨fun n hn hpc => (h.full n hn hpc).other hrow (by have := numberText_length n; omega) col, fun j rest hpc => ?_⟩
  obtain ⟨done, hlen, htext, hdone⟩ := h.part j rest hpc
  have hall := numberText_length f.num
  rw [← htext, List.length_append] at hall
  exact ⟨done, hlen, htext, hdone.other hrow (by omega) col⟩

/-- Where the statements go that store no character. -/
theorem IsSleep.putting {num n : UInt32} {here : SleepPc → LoopPc} {after : LoopPc} (h : IsSleep body num here after n) :
    (∀ p, (here p).putting = false) ∧ after.putting = false := by
  cases h <;> exact ⟨fun _ => rfl, rfl⟩

theorem LoopPc.Apart.putting {pc : LoopPc} (h : pc.Apart) : pc.putting = false := by
  cases pc with
  | put j rest => cases h.2
  | _ => rfl

theorem queueCallExec_quiet (hb : body.Lawful) (s : Messages) (pc : QueuePc) :
    ((queueCallExec body s pc).frame s.current).pc.putting = false ∧
      ((queueCallExec body s pc).frame s.current).shown = (s.frame s.current).shown := by
  simp only [queueCallExec, Messages.setFrame, Function.update_self]
  cases he : (queueExec s.current s.msgQueue pc).2.2 with
  | some e => exact ⟨(hb.returned _ _).putting, rfl⟩
  | none =>
    simp only
    split_ifs <;> exact ⟨rfl, trivial⟩

/-- A statement keeps the row of the task that makes it. -/
theorem HeaderInv.step (h : HeaderInv body.row (s.frame s.current) s.screen) (hb : body.Lawful)
    (hrow : 0 ≤ body.row ∧ body.row < 25) (he : LoopEffect env body esp s s') :
    HeaderInv body.row (s'.frame s.current) s'.screen := by
  have hself (f : Frame) : Function.update s.frame s.current f s.current = f := Function.update_self ..
  cases he with
  | queue pc hpc =>
    obtain ⟨hput, hshown⟩ := queueCallExec_quiet hb s pc
    exact h.keep (by rw [hpc]; rfl) hput hshown
  | ticks hs hpc =>
    show HeaderInv body.row (Function.update s.frame s.current _ s.current) s.screen
    rw [hself]
    exact h.keep (by rw [hpc]; exact hs.putting.1 _) (hs.putting.1 _) rfl
  | state hs hpc =>
    show HeaderInv body.row (Function.update s.frame s.current _ s.current) s.screen
    rw [hself]
    exact h.keep (by rw [hpc]; exact hs.putting.1 _) (hs.putting.1 _) rfl
  | trap hs hpc hk =>
    show HeaderInv body.row (Function.update s.frame s.current _ s.current) s.screen
    rw [hself]
    exact h.keep (by rw [hpc]; exact hs.putting.1 _) hs.putting.2 rfl
  | take hpc hmx =>
    show HeaderInv body.row (Function.update s.frame s.current _ s.current) s.screen
    rw [hself]
    refine ⟨fun n _ hput => (by cases hput), fun j rest hput => ?_⟩
    obtain ⟨rfl, rfl⟩ := LoopPc.put.inj hput
    exact ⟨[], rfl, rfl, fun j hj => absurd hj (Nat.not_lt_zero j)⟩
  | busy hpc hmx =>
    show HeaderInv body.row (Function.update s.frame s.current _ s.current) s.screen
    rw [hself]
    exact h.keep (by rw [hpc]; rfl) rfl rfl
  | put hpc =>
    show HeaderInv body.row (Function.update s.frame s.current _ s.current) _
    rw [hself]
    obtain ⟨done, rfl, htext, hdone⟩ := h.part _ _ hpc
    have hall := numberText_length (s.frame s.current).num
    rw [← htext, List.length_append] at hall
    refine ⟨fun n _ hput => (by cases hput), fun j rest hput => ?_⟩
    obtain ⟨rfl, rfl⟩ := LoopPc.put.inj hput
    exact ⟨done ++ [_], by simp, by simpa using htext, hdone.put hrow (by omega)⟩
  | putEnd hpc =>
    show HeaderInv body.row (Function.update s.frame s.current _ s.current) s.screen
    rw [hself]
    obtain ⟨done, -, htext, hdone⟩ := h.part _ _ hpc
    rw [List.append_nil] at htext
    refine ⟨fun n hn _ => ?_, fun j rest hput => (by cases hput)⟩
    obtain rfl : (s.frame s.current).num = n := Option.some.inj hn
    rw [← htext]
    exact hdone
  | unlock hpc =>
    show HeaderInv body.row (Function.update s.frame s.current _ s.current) s.screen
    rw [hself]
    exact h.keep (by rw [hpc]; rfl) hb.next.putting rfl
  | incr hpc =>
    show HeaderInv body.row (Function.update s.frame s.current _ s.current) s.screen
    rw [hself]
    exact h.keep (by rw [hpc]; rfl) rfl rfl

/-- The characters that a statement puts on the screen are in the row of its task. -/
theorem LoopEffect.draws (he : LoopEffect env body esp s s') :
    s'.screen = s.screen ∨ ∃ col c, s'.screen = vgaPutAt body.row col c vgaColorDefault s.screen := by
  cases he with
  | put hpc => exact .inr ⟨_, _, rfl⟩
  | _ => exact .inl rfl

/-- A statement leaves the other tasks where they are. -/
theorem LoopEffect.others (he : LoopEffect env body esp s s') {t : TaskRef} (ht : t ≠ s.current) :
    s'.frame t = s.frame t := by
  cases he with
  | queue pc hpc => exact Function.update_of_ne ht ..
  | ticks hs hpc => exact Function.update_of_ne ht ..
  | state hs hpc => exact Function.update_of_ne ht ..
  | trap hs hpc hk => exact Function.update_of_ne ht ..
  | take hpc hmx => exact Function.update_of_ne ht ..
  | busy hpc hmx => exact Function.update_of_ne ht ..
  | put hpc => exact Function.update_of_ne ht ..
  | putEnd hpc => exact Function.update_of_ne ht ..
  | unlock hpc => exact Function.update_of_ne ht ..
  | incr hpc => exact Function.update_of_ne ht ..

/-- A statement of one loop keeps the row of the other. -/
theorem HeaderInv.elsewhere {t : TaskRef} (h : HeaderInv row (s.frame t) s.screen) (ht : t ≠ s.current)
    (hrow : row ≠ body.row) (he : LoopEffect env body esp s s') : HeaderInv row (s'.frame t) s'.screen := by
  rw [he.others ht]
  rcases he.draws with hs | ⟨col, c, hs⟩
  · rw [hs]
    exact h
  · rw [hs]
    exact h.other hrow col

end Header

/-! ## Every run -/

/-- What holds at any moment, whichever task runs. -/
structure MessageInv (s : Messages) : Prop where
  ring : ∃ l, TaskRing s.kernel.tasking l
  locks : LocksInv s
  sender : SenderInv (s.frame refA) s.events
  receiver : ReceiverInv (s.frame refB) s.events
  rowA : HeaderInv 2 (s.frame refA) s.screen
  rowB : HeaderInv 3 (s.frame refB) s.screen

section Runs

variable {env : TaskEnv} {body : LoopBody} {esp : UInt32} {buf : ℕ → UInt8} {s s' : Messages}

/-- An interrupt on vector 32 returns if the tasks form a ring. -/
theorem irqHandler_scheduled {k : Kernel} {l : List TaskRef} (hl : TaskRing k.tasking l) {fuel : ℕ} (hf : 9 ≤ fuel)
    (callbacks : Callbacks) (esp : UInt32) :
    ∃ k', irqHandler callbacks fuel esp k = .ok k' ∧ Scheduled k.tasking k'.tasking l := by
  obtain ⟨r, t, he, hs⟩ := hl.schedule hf esp
  refine ⟨{ k with timer := if k.timerHandler then (timerIrqCallback callbacks k.timer).1 else k.timer, tasking := t },
    ?_, hs⟩
  simp only [irqHandler, he, ok_bind, pure_eq_ok]

/-- The timer interrupt returns, and the tasks stay where they are in their loops. -/
theorem messageIrq_ok (h : ∃ l, TaskRing s.kernel.tasking l) (hf : 9 ≤ env.fuel) (esp : UInt32) :
    ∃ k, irqHandler env.body env.fuel esp s.kernel = .ok k ∧ (∃ l, TaskRing k.tasking l) ∧
      messageIrq env esp s = .ok { s with kernel := k } := by
  obtain ⟨l, hl⟩ := h
  obtain ⟨k, hk, hs⟩ := irqHandler_scheduled hl hf env.body esp
  refine ⟨k, hk, ⟨l, hs.ring hl⟩, ?_⟩
  rw [messageIrq, hk]
  rfl

theorem LoopEffect.ring (he : LoopEffect env body esp s s') (hf : 9 ≤ env.fuel)
    (h : ∃ l, TaskRing s.kernel.tasking l) : ∃ l, TaskRing s'.kernel.tasking l := by
  obtain ⟨l, hl⟩ := h
  cases he with
  | ticks hs hpc => exact ⟨l, setTask_ring hl rfl⟩
  | state hs hpc => exact ⟨l, setTask_ring hl rfl⟩
  | trap hs hpc hk =>
    obtain ⟨k', hk', hsch⟩ := irqHandler_scheduled hl hf env.body esp
    obtain rfl := Except.ok.inj (hk.symm.trans hk')
    exact ⟨l, hsch.ring hl⟩
  | _ => exact ⟨l, hl⟩

/-- A statement of the running loop. -/
theorem loopExec_ok (h : ∃ l, TaskRing s.kernel.tasking l) (hf : 9 ≤ env.fuel) :
    ∃ s', loopExec env body esp buf s = .ok s' ∧ LoopEffect env body esp s s' := by
  obtain ⟨k, hk, -, -⟩ := messageIrq_ok h hf esp
  exact loopExec_effect hk

theorem MessageInv.stepA (h : MessageInv s) (hf : 9 ≤ env.fuel) (hcur : s.current = refA)
    (he : LoopEffect env taskA esp s s') : MessageInv s' := by
  obtain ⟨new, hev, hframe⟩ := he.frame
  have hne : refB ≠ s.current := by rw [hcur]; decide
  rw [hcur] at hframe
  obtain ⟨hsender, hpop⟩ := h.sender.step hframe
  refine ⟨he.ring hf h.ring, h.locks.step taskA_lawful he, by rw [hev]; exact hsender, ?_, ?_, ?_⟩
  · rw [he.others hne]
    refine ⟨h.receiver.call, h.receiver.no_incr, ?_⟩
    rw [hev, poppedValues_append, hpop, List.append_nil]
    exact h.receiver.display
  · have hrow := h.rowA
    rw [← hcur] at hrow ⊢
    exact hrow.step taskA_lawful (by decide) he
  · exact h.rowB.elsewhere hne (by decide) he

theorem MessageInv.stepB (h : MessageInv s) (hf : 9 ≤ env.fuel) (hcur : s.current = refB)
    (he : LoopEffect env taskB esp s s') : MessageInv s' := by
  obtain ⟨new, hev, hframe⟩ := he.frame
  have hne : refA ≠ s.current := by rw [hcur]; decide
  rw [hcur] at hframe
  obtain ⟨hreceiver, hoffer⟩ := h.receiver.step hframe
  refine ⟨he.ring hf h.ring, h.locks.step taskB_lawful he, ?_, by rw [hev]; exact hreceiver, ?_, ?_⟩
  · have hvalues : offeredValues s'.events = offeredValues s.events := by
      rw [hev, offeredValues_append, hoffer, List.append_nil]
    rw [he.others hne]
    refine ⟨h.sender.call, ?_, ?_⟩
    · rw [hvalues]
      exact h.sender.counted
    · rw [hvalues]
      exact h.sender.display
  · exact h.rowA.elsewhere hne (by decide) he
  · have hrow := h.rowB
    rw [← hcur] at hrow ⊢
    exact hrow.step taskB_lawful (by decide) he

/-- `kernel_main` touches only the list of tasks. -/
theorem mainExec_cases (env : TaskEnv) (s : Messages) :
    mainExec env s = s ∨ ∃ entry priority, mainExec env s =
      { s with
        kernel := { s.kernel with tasking := createTask entry priority s.kernel.tasking }
        created := s.created + 1 } := by
  rw [mainExec]
  split_ifs
  · exact .inr ⟨_, _, rfl⟩
  · exact .inr ⟨_, _, rfl⟩
  · exact .inl rfl

theorem MessageInv.main (h : MessageInv s) : MessageInv (mainExec env s) := by
  rcases mainExec_cases env s with he | ⟨entry, priority, he⟩
  · rw [he]
    exact h
  · rw [he]
    obtain ⟨l, hl⟩ := h.ring
    exact ⟨hl.create entry priority, ⟨h.locks.queue, h.locks.vga⟩, h.sender, h.receiver, h.rowA, h.rowB⟩

/-- **Every step returns and keeps the invariant.** -/
theorem messageStep_inv (hf : 9 ≤ env.fuel) (h : MessageInv s) (op : MessageOp) :
    ∃ s', messageStep env s op = .ok s' ∧ MessageInv s' := by
  cases op with
  | irq0 esp =>
    obtain ⟨k, hk, hring, he⟩ := messageIrq_ok h.ring hf esp
    exact ⟨_, he, hring, ⟨h.locks.queue, h.locks.vga⟩, h.sender, h.receiver, h.rowA, h.rowB⟩
  | exec esp buf =>
    rw [messageStep]
    cases hloop : loopOf s.current with
    | none => exact ⟨_, rfl, h.main⟩
    | some body =>
      obtain ⟨s', hs, he⟩ := loopExec_ok h.ring hf
      refine ⟨s', hs, ?_⟩
      rcases loopOf_cases hloop with ⟨hcur, rfl⟩ | ⟨hcur, rfl⟩
      · exact h.stepA hf hcur he
      · exact h.stepB hf hcur he

theorem entryFrame_queuePc (t : TaskRef) : (entryFrame t).pc.queuePc.inside = false ∧
    (entryFrame t).pc.showing = false ∧ (entryFrame t).pc.putting = false ∧ (entryFrame t).shown = none := by
  unfold entryFrame
  cases h : loopOf t with
  | none => exact ⟨rfl, rfl, rfl, rfl⟩
  | some body => exact ⟨(loopOf_lawful h).call 0, rfl, rfl, rfl⟩

/-- Nothing is shown yet. -/
theorem entryFrame_header (t : TaskRef) (row : ℤ) (screen : Terminal) : HeaderInv row (entryFrame t) screen := by
  obtain ⟨-, -, hput, hshown⟩ := entryFrame_queuePc t
  refine ⟨fun n hn => ?_, fun j rest hpc => ?_⟩
  · rw [hshown] at hn
    cases hn
  · rw [hpc] at hput
    cases hput

theorem bootMessages_inv (k : Kernel) (q : Queue) (screen : Terminal) : MessageInv (bootMessages k q screen) := by
  refine ⟨⟨_, initTasking_ring k.tasking⟩, ⟨⟨none, [], ?_⟩, none, rfl, fun t => ?_⟩, ?_, ?_, entryFrame_header refA 2 screen,
    entryFrame_header refB 3 screen⟩
  · refine ⟨rfl, fun t => iff_of_false ?_ (Option.some_ne_none t).symm, rfl,
      fun _ => ⟨ringIdx_empty (by decide), rfl⟩, fun t ht => absurd ht (Option.some_ne_none t).symm⟩
    show ¬ (entryFrame t).pc.queuePc.inside = true
    rw [(entryFrame_queuePc t).1]
    exact Bool.false_ne_true
  · refine iff_of_false ?_ (Option.some_ne_none t).symm
    show ¬ (entryFrame t).pc.showing = true
    rw [(entryFrame_queuePc t).2.1]
    exact Bool.false_ne_true
  · exact ⟨fun pc hpc => (by obtain rfl := Option.some.inj hpc; rfl), ⟨0, rfl, rfl⟩,
      ⟨(fun hd => nomatch hd), fun _ => rfl⟩⟩
  · exact ⟨fun pc hpc => (by obtain rfl := Option.some.inj hpc; rfl), by simp [bootMessages, entryFrame, loopOf],
      ⟨(fun hd => nomatch hd), fun _ => rfl⟩⟩

theorem messageRun_inv (hf : 9 ≤ env.fuel) (k : Kernel) (q : Queue) (screen : Terminal) (ops : List MessageOp) :
    ∃ s, run (messageStep env) (bootMessages k q screen) ops = .ok s ∧ MessageInv s :=
  run_total (bootMessages_inv k q screen) (fun _ op h => messageStep_inv hf h op) ops

end Runs

/-! ## What the user sees -/

/-- The messages in a state, as the calls that have returned show them. The numbers offered to the queue are 0, 1, 2,
..., each once; those it took are some of them in order; those received are the first of these, and the others are in
the queue, whenever its mutex is free. A number is lost only while eight are held. -/
structure Delivered (s : Messages) : Prop where
  numbered : ∃ n, offeredValues s.events = counterValues n
  accepted : (pushedValues s.events).Sublist (offeredValues s.events)
  received : ∃ held, pushedValues s.events = poppedValues s.events ++ held ∧ held.length ≤ 8 ∧
    (s.msgQueue.lock.locked = 0 → queueItems s.msgQueue = held)
  lost : ∀ pre v post, s.events = pre ++ .full v :: post → ∃ held, heldAfter pre = some held ∧ held.length = 8
  /-- Until the counter wraps, every number received is larger than those before it. -/
  increasing : (offeredValues s.events).length ≤ 2 ^ 32 → (poppedValues s.events).Pairwise (· < ·)

/-- The header in a state: the row of `task_a` shows the number it offered last, and that of `task_b` the number it
received last, unless the task is about to show it. Except in the middle of `terminal_write_dec`, each row shows the
number that was written there last. -/
structure HeaderTrue (s : Messages) : Prop where
  sent : (s.frame refA).pc.toShow = false → ∀ n ∈ (offeredValues s.events).getLast?,
    HeaderShows s.screen 2 (decimal n.toNat ++ [32])
  received : (s.frame refB).pc.toShow = false → ∀ n ∈ (poppedValues s.events).getLast?,
    HeaderShows s.screen 3 (decimal n.toNat ++ [32])
  sent_last : (s.frame refA).pc.putting = false → ∀ n ∈ (s.frame refA).shown,
    HeaderShows s.screen 2 (decimal n.toNat ++ [32])
  received_last : (s.frame refB).pc.putting = false → ∀ n ∈ (s.frame refB).shown,
    HeaderShows s.screen 3 (decimal n.toNat ++ [32])

theorem pushedValues_sublist (events : List QueueEvent) : (pushedValues events).Sublist (offeredValues events) := by
  induction events with
  | nil => exact List.Sublist.slnil
  | cons e events ih =>
    cases e with
    | pushed v => exact ih.cons_cons v
    | full v => exact ih.cons v
    | popped v => exact ih
    | empty => exact ih

theorem counterValues_pairwise {n : ℕ} (hn : n ≤ 2 ^ 32) : (counterValues n).Pairwise (· < ·) := by
  rw [counterValues, List.pairwise_map]
  refine List.pairwise_lt_range.imp_of_mem fun {a b} ha hb hlt => ?_
  have ha' := List.mem_range.mp ha
  have hb' := List.mem_range.mp hb
  rw [UInt32.lt_iff_toNat_lt, UInt32.toNat_ofNat', UInt32.toNat_ofNat', Nat.mod_eq_of_lt (by omega),
    Nat.mod_eq_of_lt (by omega)]
  exact hlt

theorem MessageInv.delivered {s : Messages} (h : MessageInv s) : Delivered s := by
  obtain ⟨n, hn, -⟩ := h.sender.counted
  obtain ⟨o, items, hqueue⟩ := h.locks.queue
  have hlin : QueueLinear { queue := s.msgQueue, pc := queuePcs s.frame, events := s.events } :=
    QueueInv.linear hqueue
  obtain ⟨held, -, hvalues, hlen, hitems⟩ := hlin.history
  refine ⟨⟨n, hn⟩, pushedValues_sublist _, ⟨held, hvalues, hlen, hitems⟩, hlin.push_fails, fun hle => ?_⟩
  have hall : (offeredValues s.events).Pairwise (· < ·) := by
    rw [hn, counterValues, List.length_map, List.length_range] at hle
    rw [hn]
    exact counterValues_pairwise hle
  exact hall.sublist (hlin.pop_prefix.sublist.trans (pushedValues_sublist _))

/-- **Whenever the timer interrupts and whichever task runs, the numbers of `task_a` reach `task_b` in order, none
twice, and none is lost but for a full queue.** -/
theorem messages_in_order {env : TaskEnv} (hf : 9 ≤ env.fuel) (k : Kernel) (q : Queue) (screen : Terminal)
    (ops : List MessageOp) :
    ∃ s, run (messageStep env) (bootMessages k q screen) ops = .ok s ∧ Delivered s := by
  obtain ⟨s, hs, h⟩ := messageRun_inv hf k q screen ops
  exact ⟨s, hs, h.delivered⟩

/-- The kernel that the boot sequence hands to `init_tasking`. -/
def idleKernel : Kernel where
  timer := initTimer 100 bootTimer
  tasking := bootTasking 0
  procs := bootProcs 0
  mutexes _ := mutexInit
  sems _ := ⟨0, 0⟩
  timerHandler := true

/-- The queue is empty. -/
def idleQueue : Queue := ⟨fun _ => 0, 0, 0, 0, mutexInit⟩

/-- No callbacks besides the display of the uptime, which leaves the timer alone. -/
def plainEnv : TaskEnv := ⟨fun _ => [], 9, 4096, 8192⟩

/-- `kernel_main` creates the tasks, the timer gives the CPU to `task_a`, and then `n` statements are executed. -/
def firstOps (n : ℕ) : List MessageOp :=
  List.replicate 2 (.exec 0 fun _ => 0) ++ .irq0 0 :: List.replicate n (.exec 0 fun _ => 0)

/-- `task_a` pushes 0, shows it and sleeps, and `task_b` pops it and shows it. -/
theorem firstOps_shown : Returns (run (messageStep plainEnv)
    (bootMessages idleKernel idleQueue (bootTerminal fun _ => 0)) (firstOps 25))
    (fun s => poppedValues s.events = [0] ∧ charAt s.screen 3 26 = 48) := by decide +kernel

theorem messages_in_order_first : ∃ s, run (messageStep plainEnv)
    (bootMessages idleKernel idleQueue (bootTerminal fun _ => 0)) (firstOps 25) = .ok s ∧
      poppedValues s.events = [0] ∧ Delivered s := by
  obtain ⟨s, hs, h⟩ := @messages_in_order plainEnv (by decide) idleKernel idleQueue (bootTerminal fun _ => 0)
    (firstOps 25)
  obtain ⟨t, ht, hpopped, -⟩ := firstOps_shown
  obtain rfl := Except.ok.inj (hs.symm.trans ht)
  exact ⟨s, hs, hpopped, h⟩

/-- **The header never shows a wrong number.** -/
theorem header_shows_messages {env : TaskEnv} (hf : 9 ≤ env.fuel) (k : Kernel) (q : Queue) (screen : Terminal)
    (ops : List MessageOp) :
    ∃ s, run (messageStep env) (bootMessages k q screen) ops = .ok s ∧ HeaderTrue s := by
  obtain ⟨s, hs, h⟩ := messageRun_inv hf k q screen ops
  refine ⟨s, hs, fun hpc n hn => ?_, fun hpc n hn => ?_, fun hput n hn => h.rowA.full n hn hput,
    fun hput n hn => h.rowB.full n hn hput⟩
  · refine h.rowA.full n ((h.sender.display.shown hpc).trans hn) ?_
    cases hput : (s.frame refA).pc with
    | put j rest =>
      rw [hput] at hpc
      cases hpc
    | _ => rfl
  · refine h.rowB.full n ((h.receiver.display.shown hpc).trans hn) ?_
    cases hput : (s.frame refB).pc with
    | put j rest =>
      rw [hput] at hpc
      cases hpc
    | _ => rfl

theorem header_shows_messages_first : ∃ s, run (messageStep plainEnv)
    (bootMessages idleKernel idleQueue (bootTerminal fun _ => 0)) (firstOps 25) = .ok s ∧
      charAt s.screen 3 26 = 48 ∧ HeaderTrue s := by
  obtain ⟨s, hs, h⟩ := @header_shows_messages plainEnv (by decide) idleKernel idleQueue
    (bootTerminal fun _ => 0) (firstOps 25)
  obtain ⟨t, ht, -, hshown⟩ := firstOps_shown
  obtain rfl := Except.ok.inj (hs.symm.trans ht)
  exact ⟨s, hs, hshown, h⟩

end RtosKernel
