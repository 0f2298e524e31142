import Mathlib.Tactic

/-!
# Common definitions of the kernel model

Machine words are `UInt32`, so the wrap-around of the C code is that of the model. A call of a
kernel function either returns or does not: `Except Stop α` is the outcome of a call under a budget
of loop passes, and `Stop` says why a call has not returned when the budget is spent.
-/

namespace RtosKernel

/-- `TASK_POOL_SIZE` of `task.c`. -/
abbrev taskPoolSize : ℕ := 8

/-- A `task_t*` that is not null: the address of `main_task` or of `task_pool[i]`. -/
inductive TaskRef where
  | mainTask
  | pool (i : Fin taskPoolSize)
  deriving DecidableEq, Repr

/-- Why a call has not returned. -/
inductive Stop where
  /-- A loop is still running when its budget of passes is used up. -/
  | spent
  /-- A null pointer was followed. -/
  | null
  /-- The caller is still in the retry loop of `mutex_lock`, on a mutex that had this owner when it
  was called. -/
  | waiting (owner : Option TaskRef)
  deriving DecidableEq, Repr

/-- `error_t`. -/
inductive ErrorT where
  | ok
  | nomem
  | inval
  | busy
  | timeout
  | perm
  | noent
  | exist
  | badf
  | nospace
  | deadlk
  | unknown
  deriving DecidableEq, Repr

/-- `*(--sp) = w`, with `sp` a word index into the stack array. -/
def push (st : (ℕ → UInt32) × ℕ) (w : UInt32) : (ℕ → UInt32) × ℕ :=
  (Function.update st.1 (st.2 - 1) w, st.2 - 1)

/-- The words of the initial stack of a task or process, in the order in which they are pushed:
EFLAGS, CS, EIP, error code, interrupt number, the eight registers of `pusha`, DS. -/
def initialFrame (entry : UInt32) : List UInt32 :=
  [0x0202, 0x08, entry, 0, 32] ++ List.replicate 8 0 ++ [0x10]

/-- The initial stack: the frame pushed from the word index `top` downwards, and the final index. -/
def buildStack (entry : UInt32) (top : ℕ) (stack : ℕ → UInt32) : (ℕ → UInt32) × ℕ :=
  (initialFrame entry).foldl push (stack, top)

end RtosKernel
