import RtosKernel.Lib.RingBuffer
import RtosKernel.Mutex
import RtosKernel.Semaphore

/-!
# Pipes (`pipe.c`)

A pipe is a circular buffer of 256 words under a mutex, with the semaphores `not_empty` and `not_full` for
the blocking calls. A C `int` is a `ℤ`: the indices and the counter stay far below the range of `int`.
The pointer to the pipe is not null; the pointer `data` of the reading calls may be.

A blocking call is a `sem_wait` and then the non-blocking call. One attempt of it is modelled: it returns
`none` if the semaphore has no permit, and then the caller sleeps and tries again later.
-/

namespace RtosKernel

open Lib

/-- `PIPE_BUFFER_SIZE`. -/
def pipeBufferSize : ℤ := 256

/-- `pipe_t`. -/
structure Pipe where
  buffer : ℤ → UInt32
  readIdx : ℤ
  writeIdx : ℤ
  count : ℤ
  readers : ℤ
  writers : ℤ
  lock : Mutex
  notEmpty : Semaphore
  notFull : Semaphore
  active : ℤ

/-- `pipe_create(p)`. The semaphore `not_full` starts with a single permit. -/
def pipeCreate (p : Pipe) : ErrorT × Pipe :=
  (.ok,
    { p with
      readIdx := 0, writeIdx := 0, count := 0, readers := 1, writers := 1, active := 1
      lock := mutexInit, notEmpty := semInit 0 1, notFull := semInit 1 1 })

/-- `mutex_lock(&p->lock)`, the body, `mutex_unlock(&p->lock)`. -/
def lockPipe {α : Type} (c : Caller) (body : Pipe → α × Pipe) (p : Pipe) : Except Stop (α × Pipe) := do
  let mx ← mutexLock c p.lock
  let r := body { p with lock := mx }
  pure (r.1, { r.2 with lock := mutexUnlock c.task r.2.lock })

/-- `pipe_close(p)`; the values stay in the buffer. -/
def pipeClose (c : Caller) (p : Pipe) : Except Stop (ErrorT × Pipe) :=
  lockPipe c (fun p => (.ok, { p with active := 0 })) p

/-- The body of `pipe_write` between lock and unlock. -/
def storeValue (data : UInt32) (p : Pipe) : ErrorT × Pipe :=
  if p.count ≥ pipeBufferSize then (.busy, p)
  else
    (.ok,
      { p with
        buffer := Function.update p.buffer p.writeIdx data
        writeIdx := (p.writeIdx + 1).tmod pipeBufferSize
        count := p.count + 1 })

/-- `pipe_write(p, data)`. `active` is read before the lock is taken. -/
def pipeWrite (c : Caller) (data : UInt32) (p : Pipe) : Except Stop (ErrorT × Pipe) :=
  if p.active = 0 then pure (.badf, p)
  else do
    let (e, p) ← lockPipe c (storeValue data) p
    if e = .ok then pure (e, { p with notEmpty := semPost p.notEmpty }) else pure (e, p)

/-- One attempt of `pipe_write_blocking`. -/
def pipeWriteBlocking (c : Caller) (data : UInt32) (p : Pipe) : Except Stop (Option (ErrorT × Pipe)) :=
  if p.active = 0 then pure (some (.badf, p))
  else
    match semTake p.notFull with
    | none => pure none
    | some sem => do
      let r ← pipeWrite c data { p with notFull := sem }
      pure (some r)

/-- The body of `pipe_read` between lock and unlock: the return value, `*data` and the pipe. -/
def takeValue (data : Option UInt32) (p : Pipe) : (ErrorT × Option UInt32) × Pipe :=
  if p.count = 0 then ((.busy, data), p)
  else
    ((.ok, some (p.buffer p.readIdx)),
      { p with readIdx := (p.readIdx + 1).tmod pipeBufferSize, count := p.count - 1 })

/-- `pipe_read(p, data)`, with `none` for a null `data` and `some v` for one that points to `v`. -/
def pipeRead (c : Caller) (data : Option UInt32) (p : Pipe) :
    Except Stop ((ErrorT × Option UInt32) × Pipe) :=
  if p.active = 0 ∨ data = none then pure ((.inval, data), p)
  else do
    let ((e, v), p) ← lockPipe c (takeValue data) p
    if e = .ok then pure ((e, v), { p with notFull := semPost p.notFull }) else pure ((e, v), p)

/-- One attempt of `pipe_read_blocking`. -/
def pipeReadBlocking (c : Caller) (data : Option UInt32) (p : Pipe) :
    Except Stop (Option ((ErrorT × Option UInt32) × Pipe)) :=
  if p.active = 0 ∨ data = none then pure (some ((.inval, data), p))
  else
    match semTake p.notEmpty with
    | none => pure none
    | some sem => do
      let r ← pipeRead c data { p with notEmpty := sem }
      pure (some r)

/-- `pipe_flush(p)`; the semaphores keep their counts. -/
def pipeFlush (c : Caller) (p : Pipe) : Except Stop (ErrorT × Pipe) :=
  lockPipe c (fun p => (.ok, { p with readIdx := 0, writeIdx := 0, count := 0 })) p

/-- `pipe_get_count(p)`. -/
def pipeGetCount (c : Caller) (p : Pipe) : Except Stop (ℤ × Pipe) := lockPipe c (fun p => (p.count, p)) p

/-- `pipe_is_empty(p)`. -/
def pipeIsEmpty (c : Caller) (p : Pipe) : Except Stop (Bool × Pipe) := do
  let (n, p) ← pipeGetCount c p
  pure (n = 0, p)

/-- `pipe_is_full(p)`. -/
def pipeIsFull (c : Caller) (p : Pipe) : Except Stop (Bool × Pipe) := do
  let (n, p) ← pipeGetCount c p
  pure (n ≥ pipeBufferSize, p)

/-- The values that the pipe holds, the oldest first. -/
def pipeItems (p : Pipe) : List UInt32 := ringItems p.buffer pipeBufferSize p.readIdx p.count.toNat

/-! ## Runs of the calls that do not block -/

/-- A call, with the task that makes it. -/
inductive PipeOp where
  | write (who : Caller) (data : UInt32)
  | read (who : Caller) (data : Option UInt32)
  | flush (who : Caller)
  | close (who : Caller)
  | getCount (who : Caller)
  | isEmpty (who : Caller)
  | isFull (who : Caller)

/-- What a call returns to its caller; a reading call also leaves something in `*data`. -/
inductive PipeResult where
  | code (e : ErrorT)
  | read (e : ErrorT) (data : Option UInt32)
  | number (n : ℤ)
  | test (b : Bool)
  deriving DecidableEq

/-- The pipe and the results of the calls so far, the latest first. -/
structure PipeSys where
  pipe : Pipe
  results : List PipeResult

/-- A call, with its result in front of the others. -/
def pipeStep (fuel : ℕ) (s : PipeSys) : PipeOp → Except Stop PipeSys
  | .write who data => do
    let (e, p) ← pipeWrite (who.withFuel fuel) data s.pipe
    pure { pipe := p, results := .code e :: s.results }
  | .read who data => do
    let ((e, v), p) ← pipeRead (who.withFuel fuel) data s.pipe
    pure { pipe := p, results := .read e v :: s.results }
  | .flush who => do
    let (e, p) ← pipeFlush (who.withFuel fuel) s.pipe
    pure { pipe := p, results := .code e :: s.results }
  | .close who => do
    let (e, p) ← pipeClose (who.withFuel fuel) s.pipe
    pure { pipe := p, results := .code e :: s.results }
  | .getCount who => do
    let (n, p) ← pipeGetCount (who.withFuel fuel) s.pipe
    pure { pipe := p, results := .number n :: s.results }
  | .isEmpty who => do
    let (b, p) ← pipeIsEmpty (who.withFuel fuel) s.pipe
    pure { pipe := p, results := .test b :: s.results }
  | .isFull who => do
    let (b, p) ← pipeIsFull (who.withFuel fuel) s.pipe
    pure { pipe := p, results := .test b :: s.results }

/-- A pipe in static storage. -/
def zeroPipe : Pipe :=
  { buffer := fun _ => 0, readIdx := 0, writeIdx := 0, count := 0, readers := 0, writers := 0
    lock := mutexInit, notEmpty := semInit 0 0, notFull := semInit 0 0, active := 0 }

/-- A pipe that has just been created. -/
def newPipe (p : Pipe) : PipeSys := { pipe := (pipeCreate p).2, results := [] }

/-! ## The specification: a FIFO queue of capacity 256 -/

/-- The values held, whether the queue is closed, and the results so far. -/
structure FifoSys where
  items : List UInt32
  closed : Bool
  results : List PipeResult

/-- The queue of a new pipe. -/
def newFifo : FifoSys := { items := [], closed := false, results := [] }

/-- The result of one more call. -/
def FifoSys.give (a : FifoSys) (r : PipeResult) : FifoSys := { a with results := r :: a.results }

/-- What a call is for: the values come out in the order in which they went in, and at most 256 are kept. -/
def fifoStep (a : FifoSys) : PipeOp → FifoSys
  | .write _ data =>
    if a.closed then a.give (.code .badf)
    else if a.items.length < 256 then { a with items := a.items ++ [data] }.give (.code .ok)
    else a.give (.code .busy)
  | .read _ none => a.give (.read .inval none)
  | .read _ (some old) =>
    if a.closed then a.give (.read .inval (some old))
    else
      match a.items with
      | [] => a.give (.read .busy (some old))
      | v :: vs => { a with items := vs }.give (.read .ok (some v))
  | .flush _ => { a with items := [] }.give (.code .ok)
  | .close _ => { a with closed := true }.give (.code .ok)
  | .getCount _ => a.give (.number a.items.length)
  | .isEmpty _ => a.give (.test a.items.isEmpty)
  | .isFull _ => a.give (.test (a.items.length ≥ 256))

/-! ## Runs with the blocking calls, on an open pipe -/

/-- The calls of a pipe, with the ones that wait. -/
inductive PipeCall where
  | write (who : Caller) (data : UInt32)
  | writeBlocking (who : Caller) (data : UInt32)
  | read (who : Caller) (data : Option UInt32)
  | readBlocking (who : Caller) (data : Option UInt32)
  | flush (who : Caller)

/-- One call; an attempt that has to wait leaves the pipe as it is and is made again later. -/
def pipeCallStep (fuel : ℕ) (p : Pipe) : PipeCall → Except Stop Pipe
  | .write who data => do
    let (_, p) ← pipeWrite (who.withFuel fuel) data p
    pure p
  | .writeBlocking who data => do
    let r ← pipeWriteBlocking (who.withFuel fuel) data p
    pure ((r.map Prod.snd).getD p)
  | .read who data => do
    let (_, p) ← pipeRead (who.withFuel fuel) data p
    pure p
  | .readBlocking who data => do
    let r ← pipeReadBlocking (who.withFuel fuel) data p
    pure ((r.map Prod.snd).getD p)
  | .flush who => do
    let (_, p) ← pipeFlush (who.withFuel fuel) p
    pure p

end RtosKernel
