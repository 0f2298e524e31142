import Mathlib.Tactic

/-!
# Runs of a step function

A component is a state, a step function for its operations and an initial state; a run is a list of
operations. A step may fail to return (`Except.error`), and then the run stops there.

The rules turn what one step preserves into what every run preserves: `run_total` for a component
whose steps always return, `run_inv` for one whose steps may not, `along_of_allSteps` for one whose
steps keep the invariant under a condition, `along_iff` for one that keeps its property exactly as long
as every step meets the condition (`along_iff_of_spec` if its steps always return, `along_iff_on` if only runs in a
domain are considered, `iterate_iff` if there is one operation only), `run_refines` for one that implements a
specification, `run_refines_on` for one that does so for some of its operations, and `run_congr` for two components
with the same steps. `Whenever` and `AllReturned`
speak of the states that are reached and of the steps that return, for components with steps that may not;
`whenever_iff` is their `along_iff`. `run_simulates` is for a specification that leaves a choice: what it `Reaches` is a
relation. A run on given operations can be evaluated: what it `Returns` is decidable.
-/

namespace RtosKernel.Lib

variable {ε σ ω : Type*}

/-- The operations one after the other, from the state `s`. -/
def run (step : σ → ω → Except ε σ) : σ → List ω → Except ε σ
  | s, [] => .ok s
  | s, o :: os =>
    match step s o with
    | .error e => .error e
    | .ok s' => run step s' os

/-- Every prefix of the run returns, and `P` holds in the state it reaches. -/
def Along (step : σ → ω → Except ε σ) (s₀ : σ) (P : σ → Prop) (os : List ω) : Prop :=
  ∀ pre, pre <+: os → ∃ s, run step s₀ pre = .ok s ∧ P s

/-- Every step of the run is made in a state, and with an operation, that meet `C`. -/
def AllSteps (step : σ → ω → Except ε σ) (s₀ : σ) (C : σ → ω → Prop) (os : List ω) : Prop :=
  ∀ pre o, pre ++ [o] <+: os → ∀ s, run step s₀ pre = .ok s → C s o

/-- `P` holds in every state that a prefix of the run reaches. -/
def Whenever (step : σ → ω → Except ε σ) (s₀ : σ) (P : σ → Prop) (os : List ω) : Prop :=
  ∀ pre, pre <+: os → ∀ s, run step s₀ pre = .ok s → P s

/-- Every step of the run that returns is made in a state, and with an operation, that meet `C`. -/
def AllReturned (step : σ → ω → Except ε σ) (s₀ : σ) (C : σ → ω → Prop) (os : List ω) : Prop :=
  ∀ pre o, pre ++ [o] <+: os → ∀ s s', run step s₀ pre = .ok s → step s o = .ok s' → C s o

/-- The computation returns, with a result that meets `Q`. -/
def Returns (x : Except ε σ) (Q : σ → Prop) : Prop := ∃ s, x = .ok s ∧ Q s

instance (x : Except ε σ) (Q : σ → Prop) [DecidablePred Q] : Decidable (Returns x Q) :=
  match x with
  | .ok s => decidable_of_iff (Q s) ⟨fun h => ⟨s, rfl, h⟩, fun ⟨_, he, h⟩ => Except.ok.inj he ▸ h⟩
  | .error _ => .isFalse fun ⟨_, he, _⟩ => nomatch he

variable {step : σ → ω → Except ε σ} {s s' s₀ : σ} {o : ω} {os os' : List ω}

/-- A run that returns with `Q`, which excludes `P`, does not keep `P`. -/
theorem not_along_of_returns {P Q : σ → Prop} (hend : Returns (run step s₀ os) Q) (hQ : ∀ s, Q s → ¬ P s) :
    ¬ Along step s₀ P os := by
  intro h
  obtain ⟨s, hs, hq⟩ := hend
  obtain ⟨s', hs', hP⟩ := h os List.prefix_rfl
  obtain rfl : s = s' := Except.ok.inj (hs.symm.trans hs')
  exact hQ s hq hP

theorem run_append (h : run step s os = .ok s') : run step s (os ++ os') = run step s' os' := by
  induction os generalizing s with
  | nil =>
    obtain rfl : s = s' := by simpa [run] using h
    rfl
  | cons o os ih =>
    cases hs : step s o with
    | error e => simp [run, hs] at h
    | ok t =>
      simp only [run, hs, List.cons_append] at h ⊢
      exact ih h

theorem run_singleton : run step s [o] = step s o := by
  rw [run]
  cases step s o <;> rfl

theorem run_snoc (h : run step s os = .ok s') : run step s (os ++ [o]) = step s' o := by
  rw [run_append h, run_singleton]

theorem allSteps_nil {C : σ → ω → Prop} : AllSteps step s₀ C [] := by
  intro pre o hpre
  exact absurd hpre (by simp)

theorem allSteps_cons {C : σ → ω → Prop} :
    AllSteps step s₀ C (o :: os) ↔ C s₀ o ∧ ∀ s, step s₀ o = .ok s → AllSteps step s C os := by
  constructor
  · intro h
    refine ⟨h [] o (by simp) s₀ rfl, fun s hs pre o' hpre t ht => ?_⟩
    refine h (o :: pre) o' (by simpa using hpre) t ?_
    simpa only [run, hs] using ht
  · rintro ⟨h0, h⟩ pre o' hpre t ht
    cases pre with
    | nil =>
      obtain rfl : o' = o := by simpa using hpre
      obtain rfl : s₀ = t := by simpa [run] using ht
      exact h0
    | cons o'' pre =>
      obtain ⟨rfl, hpre'⟩ : o'' = o ∧ pre ++ [o'] <+: os := by simpa using hpre
      cases hs : step s₀ o'' with
      | error e => simp [run, hs] at ht
      | ok s => exact h s hs pre o' hpre' t (by simpa only [run, hs] using ht)

theorem allReturned_of_allSteps {C : σ → ω → Prop} (h : AllSteps step s₀ C os) : AllReturned step s₀ C os :=
  fun pre o hpre s _ hr _ => h pre o hpre s hr

/-- What every step preserves holds after every run. -/
theorem run_total {I : σ → Prop} (h0 : I s₀)
    (hstep : ∀ s o, I s → ∃ s', step s o = .ok s' ∧ I s') (os : List ω) :
    ∃ s, run step s₀ os = .ok s ∧ I s := by
  induction os using List.reverseRecOn with
  | nil => exact ⟨s₀, rfl, h0⟩
  | append_singleton os o ih =>
    obtain ⟨s, hr, hs⟩ := ih
    obtain ⟨s', hs', hI⟩ := hstep s o hs
    exact ⟨s', by rw [run_snoc hr, hs'], hI⟩

/-- What every step that returns preserves holds after every run that returns. -/
theorem run_inv {I : σ → Prop} (hstep : ∀ s o s', I s → step s o = .ok s' → I s') (h0 : I s₀)
    (h : run step s₀ os = .ok s) : I s := by
  induction os generalizing s₀ with
  | nil =>
    obtain rfl : s₀ = s := by simpa [run] using h
    exact h0
  | cons o os ih =>
    cases hs : step s₀ o with
    | error e => simp [run, hs] at h
    | ok t =>
      simp only [run, hs] at h
      exact ih (hstep s₀ o t h0 hs) h

/-- If every step from an invariant state keeps the invariant or fails in one way, every run that fails does so
in that way. -/
theorem run_error {I : σ → Prop} {e e' : ε}
    (hstep : ∀ s o, I s → (∃ s', step s o = .ok s' ∧ I s') ∨ step s o = .error e) (h0 : I s₀)
    (h : run step s₀ os = .error e') : e' = e := by
  induction os generalizing s₀ with
  | nil => simp [run] at h
  | cons o os ih =>
    obtain ⟨t, ht, hI⟩ | hfail := hstep s₀ o h0
    · simp only [run, ht] at h
      exact ih hI h
    · simp only [run, hfail] at h
      exact (Except.error.inj h).symm

/-- What every step preserves holds in every state of every run. -/
theorem along_of_total {I P : σ → Prop} (h0 : I s₀) (hP : ∀ s, I s → P s)
    (hstep : ∀ s o, I s → ∃ s', step s o = .ok s' ∧ I s') (os : List ω) : Along step s₀ P os := by
  intro pre _
  obtain ⟨s, hr, hs⟩ := run_total h0 hstep pre
  exact ⟨s, hr, hP s hs⟩

/-- Forward simulation: if every step with an operation of `C` returns and is matched by the step `f` of a
specification, then every run of such operations returns and is matched by the run of the specification. -/
theorem run_refines_on {τ : Type*} {f : τ → ω → τ} {t₀ : τ} {R : σ → τ → Prop} {C : ω → Prop} (h0 : R s₀ t₀)
    (hstep : ∀ s t o, C o → R s t → ∃ s', step s o = .ok s' ∧ R s' (f t o)) (hC : ∀ o ∈ os, C o) :
    ∃ s, run step s₀ os = .ok s ∧ R s (os.foldl f t₀) := by
  induction os using List.reverseRecOn with
  | nil => exact ⟨s₀, rfl, h0⟩
  | append_singleton os o ih =>
    obtain ⟨s, hr, hs⟩ := ih fun o' ho' => hC o' (List.mem_append_left _ ho')
    obtain ⟨s', hs', hR⟩ := hstep s _ o (hC o (by simp)) hs
    refine ⟨s', by rw [run_snoc hr, hs'], ?_⟩
    rw [List.foldl_append]
    exact hR

/-- Forward simulation over all operations. -/
theorem run_refines {τ : Type*} {f : τ → ω → τ} {t₀ : τ} {R : σ → τ → Prop} (h0 : R s₀ t₀)
    (hstep : ∀ s t o, R s t → ∃ s', step s o = .ok s' ∧ R s' (f t o)) (os : List ω) :
    ∃ s, run step s₀ os = .ok s ∧ R s (os.foldl f t₀) :=
  run_refines_on (C := fun _ => True) h0 (fun s t o _ => hstep s t o) fun _ _ => trivial

/-- If the steps of a run meet `C`, the run returns and ends in an invariant state. -/
theorem run_of_allSteps {I : σ → Prop} {C : σ → ω → Prop} (h0 : I s₀)
    (hstep : ∀ s o, I s → C s o → ∃ s', step s o = .ok s' ∧ I s') (hC : AllSteps step s₀ C os) :
    ∃ s, run step s₀ os = .ok s ∧ I s := by
  induction os using List.reverseRecOn with
  | nil => exact ⟨s₀, rfl, h0⟩
  | append_singleton os o ih =>
    obtain ⟨s, hr, hs⟩ := ih fun pre o' hpre => hC pre o' (hpre.trans (List.prefix_append ..))
    obtain ⟨s', hs', hI⟩ := hstep s o hs (hC os o List.prefix_rfl s hr)
    exact ⟨s', by rw [run_snoc hr, hs'], hI⟩

/-- What every step under `C` preserves holds in every state of a run whose steps all meet `C`. -/
theorem along_of_allSteps {I P : σ → Prop} {C : σ → ω → Prop} (h0 : I s₀) (hP : ∀ s, I s → P s)
    (hstep : ∀ s o, I s → C s o → ∃ s', step s o = .ok s' ∧ I s') (hC : AllSteps step s₀ C os) :
    Along step s₀ P os := by
  intro pre hpre
  obtain ⟨s, hr, hs⟩ := run_of_allSteps h0 hstep fun pre' o hpre' => hC pre' o (hpre'.trans hpre)
  exact ⟨s, hr, hP s hs⟩

/-- A condition on the operations alone. -/
theorem allSteps_of_forall {C : ω → Prop} (h : ∀ o ∈ os, C o) : AllSteps step s₀ (fun _ => C) os := by
  intro pre o hpre s _
  exact h o (hpre.subset (by simp))

theorem AllSteps.of_prefix {C : σ → ω → Prop} (h : AllSteps step s₀ C os) (hpre : os' <+: os) :
    AllSteps step s₀ C os' :=
  fun pre o hpre' => h pre o (hpre'.trans hpre)

theorem AllSteps.and {C D : σ → ω → Prop} (hC : AllSteps step s₀ C os) (hD : AllSteps step s₀ D os) :
    AllSteps step s₀ (fun s o => C s o ∧ D s o) os :=
  fun pre o hpre s hr => ⟨hC pre o hpre s hr, hD pre o hpre s hr⟩

/-- A component whose steps in the domain `D` keep the invariant exactly under the condition `C` has the property
`P` in every state of a run in the domain if and only if all steps of the run meet `C`. -/
theorem along_iff_on {I P : σ → Prop} {C D : σ → ω → Prop} (h0 : I s₀) (hP : ∀ s, I s → P s)
    (hstep : ∀ s o, I s → D s o → C s o → ∃ s', step s o = .ok s' ∧ I s')
    (hback : ∀ s o s', I s → D s o → step s o = .ok s' → P s' → C s o) (hD : AllSteps step s₀ D os) :
    Along step s₀ P os ↔ AllSteps step s₀ C os := by
  have hstep' : ∀ s o, I s → D s o ∧ C s o → ∃ s', step s o = .ok s' ∧ I s' :=
    fun s o hI h => hstep s o hI h.1 h.2
  refine ⟨fun hP' => ?_, fun hC => along_of_allSteps h0 hP hstep' (hD.and hC)⟩
  -- by induction on the prefix: its steps meet `C`, so it ends in an invariant state
  suffices ∀ pre, pre <+: os → AllSteps step s₀ C pre from this os List.prefix_rfl
  intro pre
  induction pre using List.reverseRecOn with
  | nil => exact fun _ => allSteps_nil
  | append_singleton pre o ih =>
    intro hpre pre' o' hpre' s hr
    have hpre₀ := (List.prefix_append ..).trans hpre
    have hC := ih hpre₀
    rcases List.prefix_concat_iff.mp hpre' with he | hlt
    · obtain ⟨rfl, ho⟩ := List.append_inj' he rfl
      obtain rfl : o' = o := by simpa using ho
      obtain ⟨t, ht, hI⟩ := run_of_allSteps h0 hstep' ((hD.of_prefix hpre₀).and hC)
      obtain rfl : t = s := by rw [ht] at hr; exact Except.ok.inj hr
      obtain ⟨u, hu, hPu⟩ := hP' _ hpre
      rw [run_snoc hr] at hu
      exact hback t o' u hI (hD pre' o' hpre t hr) hu hPu
    · exact hC pre' o' hlt s hr

/-- A component whose steps keep the invariant exactly under the condition `C` has the property `P`
in every state of a run if and only if all steps of the run meet `C`. -/
theorem along_iff {I P : σ → Prop} {C : σ → ω → Prop} (h0 : I s₀) (hP : ∀ s, I s → P s)
    (hstep : ∀ s o, I s → C s o → ∃ s', step s o = .ok s' ∧ I s')
    (hback : ∀ s o s', I s → step s o = .ok s' → P s' → C s o) (os : List ω) :
    Along step s₀ P os ↔ AllSteps step s₀ C os :=
  along_iff_on (D := fun _ _ => True) h0 hP (fun s o hI _ => hstep s o hI) (fun s o s' hI _ => hback s o s' hI)
    fun _ _ _ _ _ => trivial

/-- The same for steps that always return, from one fact about each step. -/
theorem along_iff_of_spec {I P : σ → Prop} {C : σ → ω → Prop} (h0 : I s₀) (hP : ∀ s, I s → P s)
    (hspec : ∀ s o, I s → ∃ s', step s o = .ok s' ∧ (C s o → I s') ∧ (P s' → C s o)) (os : List ω) :
    Along step s₀ P os ↔ AllSteps step s₀ C os := by
  apply along_iff h0 hP
  · intro s o hI hC
    obtain ⟨s', hs, hkeep, -⟩ := hspec s o hI
    exact ⟨s', hs, hkeep hC⟩
  · intro s o s' hI hs hPs
    obtain ⟨s'', hs', -, hback⟩ := hspec s o hI
    obtain rfl : s'' = s' := Except.ok.inj (hs'.symm.trans hs)
    exact hback hPs

/-- The same for a step without operation that always returns. -/
theorem iterate_iff {f : σ → σ} {I P C : σ → Prop} (h0 : I s₀) (hP : ∀ s, I s → P s)
    (hstep : ∀ s, I s → C s → I (f s)) (hback : ∀ s, I s → P (f s) → C s) (N : ℕ) :
    (∀ n ≤ N, P (f^[n] s₀)) ↔ ∀ n < N, C (f^[n] s₀) := by
  have hnext (n : ℕ) : f^[n + 1] s₀ = f (f^[n] s₀) := Function.iterate_succ_apply' f n s₀
  constructor
  · intro hP'
    have hI : ∀ n ≤ N, I (f^[n] s₀) ∧ (n < N → C (f^[n] s₀)) := by
      intro n
      induction n with
      | zero => exact fun _ => ⟨h0, fun hlt => hback _ h0 (hnext 0 ▸ hP' 1 hlt)⟩
      | succ n ih =>
        intro hn
        obtain ⟨hs, hC⟩ := ih (Nat.le_of_succ_le hn)
        have hs' : I (f^[n + 1] s₀) := by
          rw [hnext]
          exact hstep _ hs (hC hn)
        exact ⟨hs', fun hlt => hback _ hs' (hnext (n + 1) ▸ hP' (n + 2) hlt)⟩
    exact fun n hn => (hI n hn.le).2 hn
  · intro hC n hn
    apply hP
    induction n with
    | zero => exact h0
    | succ n ih =>
      rw [hnext]
      exact hstep _ (ih (Nat.le_of_succ_le hn)) (hC n hn)

/-- A run that returns has returned from all its steps. -/
theorem run_snoc_ok (h : run step s₀ (os ++ [o]) = .ok s') :
    ∃ s, run step s₀ os = .ok s ∧ step s o = .ok s' := by
  cases hr : run step s₀ os with
  | ok s => exact ⟨s, rfl, by rwa [run_snoc hr] at h⟩
  | error e =>
    have hstop : ∀ (os : List ω) (t : σ), run step t os = .error e → run step t (os ++ [o]) = .error e := by
      intro os
      induction os with
      | nil => exact fun t ht => absurd ht (by simp [run])
      | cons o' os ih =>
        intro t ht
        cases hs : step t o' with
        | error e' =>
          simp only [run, hs, List.cons_append] at ht ⊢
          exact ht
        | ok u =>
          simp only [run, hs, List.cons_append] at ht ⊢
          exact ih u ht
    rw [hstop os s₀ hr] at h
    cases h

/-- If the steps of a run that return meet `C` and the run returns, it ends in an invariant state. -/
theorem run_of_allReturned {I : σ → Prop} {C : σ → ω → Prop} (h0 : I s₀)
    (hstep : ∀ s o s', I s → C s o → step s o = .ok s' → I s') (hC : AllReturned step s₀ C os)
    (h : run step s₀ os = .ok s) : I s := by
  induction os using List.reverseRecOn generalizing s with
  | nil =>
    obtain rfl : s₀ = s := by simpa [run] using h
    exact h0
  | append_singleton os o ih =>
    obtain ⟨t, ht, hs⟩ := run_snoc_ok h
    have hI : I t := ih (fun pre o' hpre => hC pre o' (hpre.trans (List.prefix_append ..))) ht
    exact hstep t o s hI (hC os o List.prefix_rfl t s ht hs) hs

/-- A component whose steps keep the invariant exactly under the condition `C` has the property `P` in every
state that a run reaches if and only if all steps of the run that return meet `C`. -/
theorem whenever_iff {I P : σ → Prop} {C : σ → ω → Prop} (h0 : I s₀) (hP : ∀ s, I s → P s)
    (hstep : ∀ s o s', I s → C s o → step s o = .ok s' → I s')
    (hback : ∀ s o s', I s → step s o = .ok s' → P s' → C s o) (os : List ω) :
    Whenever step s₀ P os ↔ AllReturned step s₀ C os := by
  constructor
  · intro hW
    suffices ∀ pre, pre <+: os → AllReturned step s₀ C pre from this os List.prefix_rfl
    intro pre
    induction pre using List.reverseRecOn with
    | nil =>
      intro _ pre o hpre
      exact absurd hpre (by simp)
    | append_singleton pre o ih =>
      intro hpre pre' o' hpre' s s' hr hs
      have hC := ih ((List.prefix_append ..).trans hpre)
      rcases List.prefix_concat_iff.mp hpre' with he | hlt
      · obtain ⟨rfl, ho⟩ := List.append_inj' he rfl
        obtain rfl : o' = o := by simpa using ho
        refine hback s o' s' (run_of_allReturned h0 hstep hC hr) hs (hW _ hpre s' ?_)
        rw [run_snoc hr, hs]
      · exact hC pre' o' hlt s s' hr hs
  · intro hC pre hpre s hr
    exact hP s (run_of_allReturned h0 hstep (fun pre' o hpre' => hC pre' o (hpre'.trans hpre)) hr)

/-! ## Specifications that leave a choice -/

/-- The states that a step relation reaches by the operations, one after the other. -/
inductive Reaches {τ : Type*} (tstep : τ → ω → τ → Prop) (t₀ : τ) : List ω → τ → Prop
  | start : Reaches tstep t₀ [] t₀
  | step {os : List ω} {o : ω} {t t' : τ} (h : Reaches tstep t₀ os t) (hs : tstep t o t') :
      Reaches tstep t₀ (os ++ [o]) t'

/-- Forward simulation of a step relation: if every step under `C` returns and is matched by a step of the
specification, then every run whose steps all meet `C` returns and is matched by a run of the specification. -/
theorem run_simulates {τ : Type*} {tstep : τ → ω → τ → Prop} {t₀ : τ} {R : σ → τ → Prop} {C : σ → ω → Prop}
    (h0 : R s₀ t₀)
    (hstep : ∀ s t o, R s t → C s o → ∃ s' t', step s o = .ok s' ∧ tstep t o t' ∧ R s' t')
    (hC : AllSteps step s₀ C os) : ∃ s t, run step s₀ os = .ok s ∧ Reaches tstep t₀ os t ∧ R s t := by
  induction os using List.reverseRecOn with
  | nil => exact ⟨s₀, t₀, rfl, .start, h0⟩
  | append_singleton os o ih =>
    obtain ⟨s, t, hr, ht, hR⟩ := ih (hC.of_prefix (List.prefix_append ..))
    obtain ⟨s', t', hs, ht', hR'⟩ := hstep s t o hR (hC os o List.prefix_rfl s hr)
    exact ⟨s', t', by rw [run_snoc hr, hs], ht.step ht', hR'⟩

end RtosKernel.Lib
