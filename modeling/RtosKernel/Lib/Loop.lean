import Mathlib.Tactic

/-!
# Loops with a budget of passes

A C `for` loop with a counter is a fold over `List.range`, and `foldl_range` and `foldlM_range` are its
rules. A `while` loop may run for ever, so it is modelled by `loop`: the body is run at most `n` times,
and a loop that is still running then ends with the error `e`. A body pass either goes on (`inl`)
or leaves the loop with a result (`inr`), and it may itself fail.

A result does not depend on the budget (`loop_mono`), so "the loop returns" means that some budget
is enough, and "the loop never returns" that every budget ends with `e`.
-/

namespace RtosKernel.Lib

universe u v w

variable {ε : Type u} {σ : Type v} {ρ : Type w}

/-! ## Sequencing calls -/

section Calls

variable {α β : Type v}

@[simp] theorem pure_eq_ok (a : α) : (pure a : Except ε α) = .ok a := rfl

@[simp] theorem ok_bind (a : α) (f : α → Except ε β) : (Except.ok a >>= f) = f a := rfl

@[simp] theorem error_bind (e : ε) (f : α → Except ε β) : (Except.error e >>= f) = .error e := rfl

/-- A sequence of two calls returns when both do. -/
theorem bind_eq_ok {x : Except ε α} {f : α → Except ε β} {b : β} :
    x >>= f = .ok b ↔ ∃ a, x = .ok a ∧ f a = .ok b := by
  cases x with
  | error e => simp
  | ok a => simp

/-- The calls for the entries of a list return if each of them does. -/
theorem mapM_ok {γ : Type*} {f : γ → Except ε β} {g : γ → β} {l : List γ} (h : ∀ c ∈ l, f c = .ok (g c)) :
    l.mapM f = .ok (l.map g) := by
  induction l with
  | nil => rfl
  | cons c l ih =>
    rw [List.mapM_cons, h c List.mem_cons_self, ok_bind, ih fun d hd => h d (List.mem_cons_of_mem c hd)]
    rfl

/-- What every call keeps holds after a list of calls that returns. -/
theorem foldlM_inv {f : α → β → Except ε α} {I : α → Prop} (hstep : ∀ a b a', I a → f a b = .ok a' → I a')
    {l : List β} {a a' : α} (h0 : I a) (h : l.foldlM f a = .ok a') : I a' := by
  induction l generalizing a with
  | nil =>
    obtain rfl : a = a' := by simpa using h
    exact h0
  | cons b l ih =>
    rw [List.foldlM_cons] at h
    obtain ⟨t, ht, h⟩ := bind_eq_ok.mp h
    exact ih (hstep a b t h0 ht) h

/-- Errors can be renamed call by call. -/
theorem mapError_bind {ε' : Type u} (g : ε → ε') (x : Except ε α) (f : α → Except ε β) :
    (x >>= f).mapError g = x.mapError g >>= fun a => (f a).mapError g := by
  cases x with
  | error e => rfl
  | ok a => rfl

theorem mapError_foldlM {ε' : Type u} (g : ε → ε') {f : α → β → Except ε α} {f' : α → β → Except ε' α}
    (h : ∀ a b, f' a b = (f a b).mapError g) (l : List β) (a : α) :
    l.foldlM f' a = (l.foldlM f a).mapError g := by
  induction l generalizing a with
  | nil => rfl
  | cons b l ih =>
    rw [List.foldlM_cons, List.foldlM_cons, mapError_bind, h]
    simp only [ih]

end Calls

/-! ## Counted loops -/

section Counted

variable {N : ℕ} {s : σ} {P : ℕ → σ → Prop}

/-- A `for` loop over `0, ..., N - 1`: `P n` holds before the pass with counter `n`. -/
theorem foldl_range {f : σ → ℕ → σ} (h0 : P 0 s) (hstep : ∀ n < N, ∀ t, P n t → P (n + 1) (f t n)) :
    P N ((List.range N).foldl f s) := by
  induction N with
  | zero => exact h0
  | succ N ih =>
    rw [List.range_succ, List.foldl_append]
    exact hstep N (Nat.lt_succ_self N) _ (ih fun n hn => hstep n (Nat.lt_succ_of_lt hn))

/-- A call that changes nothing the second time may as well be made once. -/
theorem foldl_call_once {α : Type*} [DecidableEq α] {f : σ → σ} (hf : ∀ s, f (f s) = f s) (a : α) (l : List α)
    (s : σ) : l.foldl (fun s c => if c = a then f s else s) s = if a ∈ l then f s else s := by
  induction l generalizing s with
  | nil => simp
  | cons c l ih =>
    rw [List.foldl_cons, ih]
    by_cases hc : c = a
    · subst hc
      simp [hf]
    · simp [hc, Ne.symm hc]

/-- The same for a loop whose passes may fail, and do not. -/
theorem foldlM_range {f : σ → ℕ → Except ε σ} (h0 : P 0 s)
    (hstep : ∀ n < N, ∀ t, P n t → ∃ t', f t n = .ok t' ∧ P (n + 1) t') :
    ∃ t, (List.range N).foldlM f s = .ok t ∧ P N t := by
  induction N with
  | zero => exact ⟨s, rfl, h0⟩
  | succ N ih =>
    obtain ⟨t, ht, hP⟩ := ih fun n hn => hstep n (Nat.lt_succ_of_lt hn)
    obtain ⟨t', ht', hP'⟩ := hstep N (Nat.lt_succ_self N) t hP
    refine ⟨t', ?_, hP'⟩
    rw [List.range_succ, List.foldlM_append, ht, ok_bind, List.foldlM_cons, ht', ok_bind]
    rfl

end Counted

/-! ## Loops -/

/-- At most `n` passes of `body` from the state `s`; `e` is the outcome of a spent budget. -/
def loop (e : ε) (body : σ → Except ε (σ ⊕ ρ)) : ℕ → σ → Except ε ρ
  | 0, _ => .error e
  | n + 1, s =>
    match body s with
    | .error e' => .error e'
    | .ok (.inl s') => loop e body n s'
    | .ok (.inr r) => .ok r

variable {e : ε} {body : σ → Except ε (σ ⊕ ρ)}

theorem loop_next {n : ℕ} {s t : σ} (h : body s = .ok (.inl t)) :
    loop e body (n + 1) s = loop e body n t := by
  simp only [loop, h]

theorem loop_exit {n : ℕ} {s : σ} {r : ρ} (h : body s = .ok (.inr r)) :
    loop e body (n + 1) s = .ok r := by
  simp only [loop, h]

/-- A larger budget gives the same result. -/
theorem loop_mono {n k : ℕ} {s : σ} {r : ρ} (h : loop e body n s = .ok r) (hle : n ≤ k) :
    loop e body k s = .ok r := by
  induction n generalizing s k with
  | zero => exact absurd h (by simp [loop])
  | succ n ih =>
    obtain ⟨k, rfl⟩ : ∃ j, k = j + 1 := ⟨k - 1, by omega⟩
    cases hb : body s with
    | error e' => exact absurd h (by simp [loop, hb])
    | ok x =>
      cases x with
      | inl s' =>
        rw [loop_next hb] at h ⊢
        exact ih h (by omega)
      | inr r' =>
        rw [loop_exit hb] at h ⊢
        exact h

/-- What every pass keeps holds of the result of a loop that returns. -/
theorem loop_inv {I : σ → Prop} {Q : ρ → Prop} (hnext : ∀ s t, I s → body s = .ok (.inl t) → I t)
    (hexit : ∀ s r, I s → body s = .ok (.inr r) → Q r) {n : ℕ} {s : σ} {r : ρ} (h0 : I s)
    (h : loop e body n s = .ok r) : Q r := by
  induction n generalizing s with
  | zero => exact absurd h (by simp [loop])
  | succ n ih =>
    cases hb : body s with
    | error e' => exact absurd h (by simp [loop, hb])
    | ok x =>
      cases x with
      | inl t =>
        rw [loop_next hb] at h
        exact ih (hnext s t h0 hb) h
      | inr r' =>
        rw [loop_exit hb] at h
        obtain rfl := Except.ok.inj h
        exact hexit s r' h0 hb

/-- A loop whose body keeps going from every state of `inv` never returns. -/
theorem loop_forever (inv : σ → Prop)
    (hstep : ∀ s, inv s → ∃ s', body s = .ok (.inl s') ∧ inv s') {s : σ} (h0 : inv s) (n : ℕ) :
    loop e body n s = .error e := by
  induction n generalizing s with
  | zero => rfl
  | succ n ih =>
    obtain ⟨s', hb, hs'⟩ := hstep s h0
    rw [loop_next hb]
    exact ih hs'

end RtosKernel.Lib
