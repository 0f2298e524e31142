import RtosKernel.Lib.Memory

/-!
# Pushing words on a stack in memory

A stack that grows downwards: a push lowers the stack pointer by four and stores a word there. What a list of pushes
leaves can be read back word by word (`load32_pushAll`, and upwards from the new stack pointer `pushAll_wordsAt`), and
nothing outside the words pushed is changed (`pushAll_writes`).
-/

namespace RtosKernel.Lib

namespace Mem

/-- The words are pushed in order, from the stack pointer `sp` on. -/
def pushAll (m : Mem) (sp : UInt32) : List UInt32 → Mem
  | [] => m
  | w :: ws => pushAll (m.store32 (sp - 4) w) (sp - 4) ws

variable {m : Mem} {sp : UInt32} {ws : List UInt32}

theorem sub_four_toNat (h : 4 ≤ sp.toNat) : (sp - 4).toNat = sp.toNat - 4 :=
  UInt32.toNat_sub_of_le sp 4 (UInt32.le_iff_toNat_le.mpr h)

/-- The pushes stay between the old and the new stack pointer. -/
theorem pushAll_writes (h : 4 * ws.length ≤ sp.toNat) :
    WritesIn (fun x => sp.toNat - 4 * ws.length ≤ x ∧ x < sp.toNat) m (pushAll m sp ws) := by
  induction ws generalizing m sp with
  | nil => exact WritesIn.refl _ m
  | cons w ws ih =>
    rw [List.length_cons] at h
    have hsp : (sp - 4).toNat = sp.toNat - 4 := sub_four_toNat (by omega)
    have hlt : sp.toNat < 2 ^ 32 := sp.toNat_lt
    have hfirst : WritesIn (fun x => sp.toNat - 4 * (ws.length + 1) ≤ x ∧ x < sp.toNat) m (m.store32 (sp - 4) w) :=
      WritesIn.store32 m w (by omega) fun x h1 h2 => by omega
    have hrest := @ih (m.store32 (sp - 4) w) (sp - 4) (by omega)
    exact hfirst.trans (hrest.mono fun x hx => by omega)

/-- The word pushed as number `k` stands `k + 1` words below the old stack pointer. -/
theorem load32_pushAll (h : 4 * ws.length ≤ sp.toNat) {k : ℕ} (hk : k < ws.length) {a : UInt32}
    (ha : a.toNat = sp.toNat - 4 * (k + 1)) : (pushAll m sp ws).load32 a = ws[k] := by
  induction ws generalizing m sp k with
  | nil => exact absurd hk (Nat.not_lt_zero k)
  | cons w ws ih =>
    rw [List.length_cons] at h hk
    have hsp : (sp - 4).toNat = sp.toNat - 4 := sub_four_toNat (by omega)
    have hlt : sp.toNat < 2 ^ 32 := sp.toNat_lt
    cases k with
    | zero =>
      -- the later pushes are below this word
      have hword : a = sp - 4 := UInt32.toNat_inj.mp (by omega)
      have hkeep : Agree (m.store32 (sp - 4) w) (pushAll (m.store32 (sp - 4) w) (sp - 4) ws) (sp - 4).toNat
          sp.toNat := (pushAll_writes (m := m.store32 (sp - 4) w) (by omega)).agree fun x h1 h2 h3 => by omega
      rw [pushAll, hkeep.load32 (by omega) (by omega) (by omega), hword, load32_store32]
      rfl
    | succ k => exact ih (by omega) (Nat.lt_of_succ_lt_succ hk) (by omega)

theorem pushAll_append (m : Mem) (sp : UInt32) (ws ws' : List UInt32) :
    pushAll m sp (ws ++ ws') = pushAll (pushAll m sp ws) (sp - 4 * UInt32.ofNat ws.length) ws' := by
  induction ws generalizing m sp with
  | nil => simp [pushAll]
  | cons w ws ih =>
    have hsp : sp - 4 - 4 * UInt32.ofNat ws.length = sp - 4 * UInt32.ofNat (ws.length + 1) := by
      rw [UInt32.ofNat_add]
      grind
    rw [List.cons_append, pushAll, ih, pushAll, hsp, List.length_cons]

/-- The words stand in memory, from `a` upwards. -/
def WordsAt (m : Mem) (a : UInt32) (ws : List UInt32) : Prop :=
  ∀ (k : ℕ) (hk : k < ws.length), m.load32 (a + 4 * UInt32.ofNat k) = ws[k]

theorem word_addr {a : UInt32} {k n : ℕ} (ha : a.toNat + 4 * n ≤ 2 ^ 32) (hk : k < n) :
    (a + 4 * UInt32.ofNat k).toNat = a.toNat + 4 * k := by
  have hfour : 4 * UInt32.ofNat k = UInt32.ofNat (4 * k) := (UInt32.ofNat_mul 4 k).symm
  rw [hfour, UInt32.toNat_add, UInt32.toNat_ofNat', Nat.mod_eq_of_lt (by omega), Nat.mod_eq_of_lt (by omega)]

theorem sub_words_toNat {n : ℕ} (h : 4 * n ≤ sp.toNat) : (sp - 4 * UInt32.ofNat n).toNat = sp.toNat - 4 * n := by
  have hlt : sp.toNat < 2 ^ 32 := sp.toNat_lt
  have hfour : 4 * UInt32.ofNat n = UInt32.ofNat (4 * n) := (UInt32.ofNat_mul 4 n).symm
  have hn : (UInt32.ofNat (4 * n)).toNat = 4 * n := by rw [UInt32.toNat_ofNat', Nat.mod_eq_of_lt (by omega)]
  rw [hfour, UInt32.toNat_sub_of_le _ _ (UInt32.le_iff_toNat_le.mpr (by omega)), hn]

/-- The words stand from the new stack pointer upwards, the last one first. -/
theorem pushAll_wordsAt (h : 4 * ws.length ≤ sp.toNat) :
    WordsAt (pushAll m sp ws) (sp - 4 * UInt32.ofNat ws.length) ws.reverse := by
  intro k hk
  rw [List.length_reverse] at hk
  have hlt : sp.toNat < 2 ^ 32 := sp.toNat_lt
  have hbase := sub_words_toNat h
  have haddr := word_addr (a := sp - 4 * UInt32.ofNat ws.length) (by omega) hk
  rw [List.getElem_reverse]
  exact load32_pushAll h (by omega) (by omega)

theorem WordsAt.agree {m' : Mem} {a : UInt32} (hw : WordsAt m a ws) (ha : a.toNat + 4 * ws.length ≤ 2 ^ 32)
    (hm : Agree m m' a.toNat (a.toNat + 4 * ws.length)) : WordsAt m' a ws := by
  intro k hk
  have haddr := word_addr ha hk
  rw [← hw k hk]
  exact hm.load32 (by omega) (by omega) (by omega)

end Mem

end RtosKernel.Lib
