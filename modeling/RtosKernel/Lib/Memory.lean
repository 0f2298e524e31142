import Mathlib.Tactic

/-!
# Byte memory with 32-bit little-endian words

The memory of a 32-bit machine: one byte for each 32-bit address, words stored little-endian at any
address. `Mem.trace` is a history variable that no program reads: the addresses of all bytes stored
so far. With it "this call does not write that byte" is a statement about the call's stores, and not
only about the values before and after.

`WritesIn P m m'` is the effect of a piece of code whose stores all fall in the address set `P`;
effects compose, and everything outside `P` is unchanged.
-/

namespace RtosKernel.Lib

/-- Byte memory, with the addresses of the bytes stored so far (latest first). -/
structure Mem where
  byte : UInt32 → UInt8
  trace : List UInt32 := []

/-- Memory that holds only zeros. -/
def zeroMem : Mem := { byte := fun _ => 0 }

namespace Mem

/-- Byte `i` (`i < 4`) of a word, the least significant one first. -/
def byteOf (v : UInt32) (i : ℕ) : UInt8 := UInt8.ofNat (v.toNat / 256 ^ i)

/-- A store of a byte, with its address noted. -/
def store8 (m : Mem) (a : UInt32) (b : UInt8) : Mem :=
  { byte := fun x => if x = a then b else m.byte x, trace := a :: m.trace }

/-- A 32-bit store: four byte stores. -/
def store32 (m : Mem) (a v : UInt32) : Mem :=
  (((m.store8 a (byteOf v 0)).store8 (a + 1) (byteOf v 1)).store8 (a + 2) (byteOf v 2)).store8
    (a + 3) (byteOf v 3)

/-- A 32-bit load. -/
def load32 (m : Mem) (a : UInt32) : UInt32 :=
  UInt32.ofNat ((m.byte a).toNat + 256 * (m.byte (a + 1)).toNat +
    65536 * (m.byte (a + 2)).toNat + 16777216 * (m.byte (a + 3)).toNat)

/-- The four bytes of the word at `a`, when it does not wrap around the end of memory. -/
theorem word_toNat {a : UInt32} (ha : a.toNat + 4 ≤ 2 ^ 32) :
    (a + 1).toNat = a.toNat + 1 ∧ (a + 2).toNat = a.toNat + 2 ∧ (a + 3).toNat = a.toNat + 3 := by
  refine ⟨?_, ?_, ?_⟩ <;> rw [UInt32.toNat_add] <;> simp <;> omega

theorem byte_store32 (m : Mem) (a v x : UInt32) :
    (m.store32 a v).byte x =
      if x = a + 3 then byteOf v 3 else if x = a + 2 then byteOf v 2 else
        if x = a + 1 then byteOf v 1 else if x = a then byteOf v 0 else m.byte x := rfl

theorem trace_store32 (m : Mem) (a v : UInt32) :
    (m.store32 a v).trace = [a + 3, a + 2, a + 1, a] ++ m.trace := rfl

theorem byteOf_toNat (v : UInt32) :
    (byteOf v 0).toNat + 256 * (byteOf v 1).toNat + 65536 * (byteOf v 2).toNat +
      16777216 * (byteOf v 3).toNat = v.toNat := by
  have hv : v.toNat < 4294967296 := v.toNat_lt
  simp only [byteOf, UInt8.toNat_ofNat', Nat.reducePow]
  omega

/-- Reading back the word just stored. -/
theorem load32_store32 (m : Mem) (a v : UInt32) : (m.store32 a v).load32 a = v := by
  have h1 : a ≠ a + 1 ∧ a ≠ a + 2 ∧ a ≠ a + 3 := by
    refine ⟨?_, ?_, ?_⟩ <;> grind
  have h2 : a + 1 ≠ a + 2 ∧ a + 1 ≠ a + 3 ∧ a + 2 ≠ a + 3 := by
    refine ⟨?_, ?_, ?_⟩ <;> grind
  simp only [load32, byte_store32, h1, h2, if_true, if_false]
  rw [byteOf_toNat]
  exact UInt32.ofNat_toNat

/-- Storing the word that is there already changes no byte. -/
theorem byte_store32_load32 (m : Mem) (a : UInt32) : (m.store32 a (m.load32 a)).byte = m.byte := by
  have hb (i : UInt32) : (m.byte i).toNat < 256 := (m.byte i).toNat_lt
  have hval : (m.load32 a).toNat = (m.byte a).toNat + 256 * (m.byte (a + 1)).toNat +
      65536 * (m.byte (a + 2)).toNat + 16777216 * (m.byte (a + 3)).toNat := by
    rw [load32, UInt32.toNat_ofNat']
    have h0 := hb a
    have h1 := hb (a + 1)
    have h2 := hb (a + 2)
    have h3 := hb (a + 3)
    omega
  have hbyte : ∀ i b, (b : UInt8).toNat = (m.load32 a).toNat / 256 ^ i % 256 → byteOf (m.load32 a) i = b := by
    intro i b hi
    refine UInt8.toNat_inj.mp ?_
    rw [byteOf, UInt8.toNat_ofNat', hi]
  have h0 := hb a
  have h1 := hb (a + 1)
  have h2 := hb (a + 2)
  have h3 := hb (a + 3)
  rw [hval] at hbyte
  funext x
  rw [byte_store32]
  split_ifs with e3 e2 e1 e0
  · rw [e3]
    exact hbyte 3 _ (by omega)
  · rw [e2]
    exact hbyte 2 _ (by omega)
  · rw [e1]
    exact hbyte 1 _ (by omega)
  · rw [e0]
    exact hbyte 0 _ (by omega)
  · rfl

/-! ## Agreement and effects -/

/-- The two memories hold the same bytes at the addresses `lo ≤ x < hi`. -/
def Agree (m m' : Mem) (lo hi : ℕ) : Prop :=
  ∀ x : UInt32, lo ≤ x.toNat → x.toNat < hi → m'.byte x = m.byte x

theorem Agree.mono {m m' : Mem} {lo hi lo' hi' : ℕ} (h : Agree m m' lo hi) (hl : lo ≤ lo')
    (hh : hi' ≤ hi) : Agree m m' lo' hi' :=
  fun x h1 h2 => h x (by omega) (by omega)

theorem Agree.load32 {m m' : Mem} {lo hi : ℕ} (h : Agree m m' lo hi) {a : UInt32}
    (ha : a.toNat + 4 ≤ 2 ^ 32) (hl : lo ≤ a.toNat) (hh : a.toNat + 4 ≤ hi) :
    m'.load32 a = m.load32 a := by
  obtain ⟨h1, h2, h3⟩ := word_toNat ha
  simp only [Mem.load32]
  rw [h a (by omega) (by omega), h (a + 1) (by omega) (by omega), h (a + 2) (by omega) (by omega),
    h (a + 3) (by omega) (by omega)]

/-- `m'` is reached from `m` by stores that all fall in the address set `P`. -/
structure WritesIn (P : ℕ → Prop) (m m' : Mem) : Prop where
  stores : ∃ new, m'.trace = new ++ m.trace ∧ ∀ x ∈ new, P x.toNat
  keeps : ∀ x : UInt32, ¬ P x.toNat → m'.byte x = m.byte x

namespace WritesIn

variable {P Q : ℕ → Prop} {m m' m'' : Mem}

theorem refl (P : ℕ → Prop) (m : Mem) : WritesIn P m m :=
  ⟨⟨[], rfl, by simp⟩, fun _ _ => rfl⟩

theorem trans (h : WritesIn P m m') (h' : WritesIn P m' m'') : WritesIn P m m'' := by
  obtain ⟨n1, e1, p1⟩ := h.stores
  obtain ⟨n2, e2, p2⟩ := h'.stores
  refine ⟨⟨n2 ++ n1, by rw [e2, e1, List.append_assoc], fun x hx => ?_⟩, fun x hx => ?_⟩
  · rcases List.mem_append.mp hx with hx | hx
    · exact p2 x hx
    · exact p1 x hx
  · rw [h'.keeps x hx, h.keeps x hx]

theorem mono (h : WritesIn P m m') (hPQ : ∀ x, P x → Q x) : WritesIn Q m m' := by
  obtain ⟨n1, e1, p1⟩ := h.stores
  exact ⟨⟨n1, e1, fun x hx => hPQ _ (p1 x hx)⟩, fun x hx => h.keeps x fun hp => hx (hPQ _ hp)⟩

/-- The effect of one byte store. -/
theorem store8 (m : Mem) {a : UInt32} (b : UInt8) (hP : P a.toNat) : WritesIn P m (m.store8 a b) := by
  refine ⟨⟨[a], rfl, fun x hx => by rw [List.mem_singleton.mp hx]; exact hP⟩, fun x hx => ?_⟩
  have hne : x ≠ a := fun e => hx (e ▸ hP)
  simp only [Mem.store8, if_neg hne]

/-- The effect of one word store. -/
theorem store32 (m : Mem) {a : UInt32} (v : UInt32) (ha : a.toNat + 4 ≤ 2 ^ 32)
    (hP : ∀ x, a.toNat ≤ x → x < a.toNat + 4 → P x) : WritesIn P m (m.store32 a v) := by
  obtain ⟨h1, h2, h3⟩ := word_toNat ha
  have hp : ∀ x : UInt32, x = a + 3 ∨ x = a + 2 ∨ x = a + 1 ∨ x = a → P x.toNat := by
    rintro x (rfl | rfl | rfl | rfl) <;> exact hP _ (by omega) (by omega)
  refine ⟨⟨_, trace_store32 m a v, fun x hx => hp x (by simpa using hx)⟩, fun x hx => ?_⟩
  have hne : x ≠ a + 3 ∧ x ≠ a + 2 ∧ x ≠ a + 1 ∧ x ≠ a := by
    refine ⟨?_, ?_, ?_, ?_⟩ <;> intro hxa <;> exact hx (hp x (by simp [hxa]))
  simp only [byte_store32, hne, if_false]

/-- Bytes outside the effect agree. -/
theorem agree (h : WritesIn P m m') {lo hi : ℕ} (hd : ∀ x, lo ≤ x → x < hi → ¬ P x) :
    Agree m m' lo hi :=
  fun x h1 h2 => h.keeps x (hd _ h1 h2)

end WritesIn

/-- A word store leaves the words next to it alone. -/
theorem load32_store32_of_disjoint (m : Mem) {a b : UInt32} (v : UInt32)
    (ha : a.toNat + 4 ≤ 2 ^ 32) (hb : b.toNat + 4 ≤ 2 ^ 32)
    (h : a.toNat + 4 ≤ b.toNat ∨ b.toNat + 4 ≤ a.toNat) :
    (m.store32 a v).load32 b = m.load32 b := by
  have hw : WritesIn (fun x => a.toNat ≤ x ∧ x < a.toNat + 4) m (m.store32 a v) :=
    WritesIn.store32 m v ha fun x h1 h2 => ⟨h1, h2⟩
  have hag : Agree m (m.store32 a v) b.toNat (b.toNat + 4) :=
    hw.agree fun x h1 h2 h3 => by omega
  exact hag.load32 hb le_rfl le_rfl

end Mem

end RtosKernel.Lib
