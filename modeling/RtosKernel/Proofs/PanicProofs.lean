import RtosKernel.Panic
import RtosKernel.Proofs.PrintingProofs
import RtosKernel.Proofs.ProtectionProofs
import RtosKernel.Proofs.TerminalTextProofs

/-!
# Proofs: the panic screen

What is printed arrives in the terminal and at the serial port (`Writes`), and a newline brings the screen back from
the scrollback. The registers on the screen are those in the `registers_t`, and this is right exactly when the stub of
the vector counts on the error code that the processor pushes.
-/

namespace RtosKernel

open Lib Mem

/-! ## What is printed -/

theorem putEffect_viewOffset (c : UInt8) (s : Terminal) :
    (putEffect c s).viewOffset = 0 ∨ c ≠ 10 ∧ (putEffect c s).viewOffset = s.viewOffset := by
  unfold putEffect
  split_ifs with hnl
  · exact .inl rfl
  · exact .inr ⟨hnl, rfl⟩
  · exact .inr ⟨hnl, rfl⟩
  · exact .inr ⟨hnl, rfl⟩
  · exact .inl rfl

/-- The code writes the characters to both outputs. -/
def Writes (str : List UInt8) (code : Console → Except OutOfBounds Console) : Prop :=
  ∀ s t, Showing s.terminal t → ∃ s', code s = .ok s' ∧ Showing s'.terminal (str.foldl Text.put t) ∧
    s'.serial = s.serial ++ str ∧ (s.terminal.viewOffset = 0 ∨ 10 ∈ str → s'.terminal.viewOffset = 0)

namespace Writes

variable {str str' : List UInt8} {code code' : Console → Except OutOfBounds Console}

theorem nothing : Writes [] pure := by
  intro s t h
  exact ⟨s, rfl, h, (List.append_nil _).symm, fun hv => hv.elim id fun hmem => absurd hmem List.not_mem_nil⟩

theorem andThen (h : Writes str code) (h' : Writes str' code') :
    Writes (str ++ str') fun s => code s >>= code' := by
  intro s t hs
  obtain ⟨s₁, hcode, hshow₁, hserial₁, hview₁⟩ := h s t hs
  obtain ⟨s₂, hcode', hshow₂, hserial₂, hview₂⟩ := h' s₁ _ hshow₁
  refine ⟨s₂, ?_, ?_, ?_, fun hv => hview₂ ?_⟩
  · show (code s >>= code') = .ok s₂
    rw [hcode]
    exact hcode'
  · rw [List.foldl_append]
    exact hshow₂
  · rw [hserial₂, hserial₁, List.append_assoc]
  · rcases hv with hv | hmem
    · exact .inl (hview₁ (.inl hv))
    · exact (List.mem_append.mp hmem).imp_left fun hmem => hview₁ (.inr hmem)

theorem putBoth {c : UInt8} (hc : c ≠ 0) : Writes [c] fun s => RtosKernel.putBoth s c := by
  intro s t h
  have hop : (TermOp.putchar c).Writes := ⟨trivial, fun heq => hc (TermOp.putchar.inj heq)⟩
  obtain ⟨term, hput, hdrawn, hrefresh⟩ := terminalPutchar_spec h.inv c
  obtain ⟨term', hput', hshow⟩ := termStep_showing h hop
  have hsame : term' = term := Except.ok.inj (hput'.symm.trans hput)
  subst hsame
  refine ⟨⟨term', s.serial ++ [c]⟩, ?_, hshow, rfl, fun hv => ?_⟩
  · show (terminalPutchar c s.terminal >>= _) = _
    rw [hput]
    rfl
  · show term'.viewOffset = 0
    rw [hdrawn.viewOffset]
    rcases putEffect_viewOffset c s.terminal with h0 | ⟨hnl, hkept⟩
    · exact h0
    · rw [hkept]
      exact hv.elim id fun hmem => absurd (List.mem_singleton.mp hmem).symm hnl

theorem printStr {str : List UInt8} (hstr : 0 ∉ str) : Writes str (panicPrintStr str) := by
  induction str with
  | nil => exact nothing
  | cons c str ih =>
    have hc : c ≠ 0 := fun h0 => hstr (h0 ▸ List.mem_cons_self)
    exact (putBoth hc).andThen (ih fun hmem => hstr (List.mem_cons_of_mem _ hmem))

theorem printLit (str : String) : Writes (CString.ofString str).chars (printLit str) :=
  printStr (CString.ofString str).no_nul

theorem foldlM {α : Type} {str : α → List UInt8} {code : Console → α → Except OutOfBounds Console}
    (h : ∀ a, Writes (str a) fun s => code s a) (l : List α) : Writes (l.flatMap str) fun s => l.foldlM code s := by
  induction l with
  | nil => exact nothing
  | cons a l ih =>
    rw [List.flatMap_cons]
    exact (h a).andThen ih

end Writes

theorem panicPrintHex_length (n : UInt32) : (panicPrintHex n).length = 10 := by
  rw [panicPrintHex_eq, List.length_append, hexDigits_length]
  rfl

/-- The characters of a number: no control character, and no NUL. -/
theorem panicPrintHex_mem {n : UInt32} {c : UInt8} (h : c ∈ panicPrintHex n) : 32 ≤ c := by
  rw [panicPrintHex_eq] at h
  rcases List.mem_append.mp h with h | h
  · fin_cases h <;> decide
  · have hdigit := hexDigits_isSome h
    unfold hexValue at hdigit
    split_ifs at hdigit with h1 h2 h3
    · exact UInt8.le_trans (by decide) h1.1
    · exact UInt8.le_trans (by decide) h2.1
    · exact UInt8.le_trans (by decide) h3.1
    · exact absurd hdigit Bool.false_ne_true

theorem panic_writes (message : String) (r : Registers) :
    Writes (10 :: (panicLines message r.eip r.intNo r.errCode r.eax r.ebx r.ecx r.edx).flatMap fun line => line ++ [10])
      (panic message (some r)) := by
  have hfield (field : String × (Registers → UInt32)) :
      Writes ((CString.ofString field.1).chars ++ panicPrintHex (field.2 r)) fun s => printField r s field :=
    (Writes.printLit field.1).andThen (Writes.printStr fun h0 => absurd (panicPrintHex_mem h0) (by decide))
  have hall := (Writes.printLit "\n\n*** KERNEL PANIC ***\n").andThen <| (Writes.printLit message).andThen <|
    (Writes.foldlM hfield panicFields).andThen (Writes.printLit "\nSystem halted.\n")
  have hbanner : (CString.ofString "\n\n*** KERNEL PANIC ***\n").chars =
      10 :: 10 :: ((CString.ofString "*** KERNEL PANIC ***").chars ++ [10]) := by decide
  have heip : (CString.ofString "\nEIP: ").chars = 10 :: (CString.ofString "EIP: ").chars := by decide
  have heax : (CString.ofString "\nEAX: ").chars = 10 :: (CString.ofString "EAX: ").chars := by decide
  have hhalted : (CString.ofString "\nSystem halted.\n").chars =
      10 :: ((CString.ofString "System halted.").chars ++ [10]) := by decide
  have htext : (CString.ofString "\n\n*** KERNEL PANIC ***\n").chars ++ ((CString.ofString message).chars ++
        (panicFields.flatMap (fun field => (CString.ofString field.1).chars ++ panicPrintHex (field.2 r)) ++
          (CString.ofString "\nSystem halted.\n").chars)) =
      10 :: (panicLines message r.eip r.intNo r.errCode r.eax r.ebx r.ecx r.edx).flatMap
        fun line => line ++ [10] := by
    simp only [panicFields, panicLines, List.flatMap_cons, List.flatMap_nil, hbanner, heip, heax, hhalted,
      List.append_assoc, List.cons_append, List.nil_append, List.append_nil]
  rw [← htext]
  exact hall

/-! ## What the screen shows -/

/-- A line that fits in a row, without control characters. -/
def Printable (line : List UInt8) : Prop := line.length < 80 ∧ ∀ c ∈ line, 32 ≤ c

/-- The same of a literal, as a computation. -/
def printableLit (len : ℕ) (str : String) : Bool :=
  decide ((CString.ofString str).chars.length ≤ len) && (CString.ofString str).chars.all fun c => decide (32 ≤ c)

theorem printableLit_spec {len : ℕ} {str : String} (h : printableLit len str = true) :
    (CString.ofString str).chars.length ≤ len ∧ ∀ c ∈ (CString.ofString str).chars, 32 ≤ c := by
  obtain ⟨hlen, hchars⟩ := Bool.and_eq_true_iff.mp h
  exact ⟨of_decide_eq_true hlen, fun c hc => of_decide_eq_true (List.all_eq_true.mp hchars c hc)⟩

theorem Printable.lit {str : String} (h : printableLit 79 str = true) : Printable (CString.ofString str).chars := by
  obtain ⟨hlen, hchars⟩ := printableLit_spec h
  exact ⟨Nat.lt_succ_of_le hlen, hchars⟩

theorem put_chars {finished : List (List UInt8)} {current line : List UInt8} (hline : ∀ c ∈ line, 32 ≤ c)
    (hlen : current.length + line.length < 80) :
    line.foldl Text.put ⟨finished, current⟩ = ⟨finished, current ++ line⟩ := by
  induction line generalizing current with
  | nil => simp
  | cons c line ih =>
    rw [List.length_cons] at hlen
    have hc := hline c List.mem_cons_self
    have hnl : c ≠ 10 := fun h => absurd (h ▸ hc) (by decide)
    have hbs : c ≠ 8 := fun h => absurd (h ▸ hc) (by decide)
    have hput : Text.put ⟨finished, current⟩ c = ⟨finished, current ++ [c]⟩ := by
      rw [Text.put, if_neg hnl, if_neg hbs, if_neg (show ¬ current.length + 1 = 80 by omega)]
    rw [List.foldl_cons, hput, ih (fun c hmem => hline c (List.mem_cons_of_mem _ hmem)), List.append_assoc]
    · rfl
    · rw [List.length_append, List.length_singleton]
      omega

theorem put_lines {finished lines : List (List UInt8)} (hlines : ∀ line ∈ lines, Printable line) :
    (lines.flatMap fun line => line ++ [10]).foldl Text.put ⟨finished, []⟩ = ⟨finished ++ lines, []⟩ := by
  induction lines generalizing finished with
  | nil => simp
  | cons line lines ih =>
    obtain ⟨hlen, hchars⟩ := hlines line List.mem_cons_self
    have hnewline : Text.put ⟨finished, line⟩ 10 = ⟨finished ++ [line], []⟩ := rfl
    rw [List.flatMap_cons, List.foldl_append, List.foldl_append, put_chars hchars (by simpa using hlen), List.nil_append,
      List.foldl_cons, List.foldl_nil, hnewline, ih fun line hmem => hlines line (List.mem_cons_of_mem _ hmem),
      List.append_assoc]
    rfl

/-- The lines are at the end of both outputs, whatever was on the screen and wherever it was scrolled to. -/
theorem Writes.reports {lines : List (List UInt8)} {code : Console → Except OutOfBounds Console} {s : Console} {t : Text}
    (h : Writes (10 :: lines.flatMap fun line => line ++ [10]) code) (hlines : ∀ line ∈ lines, Printable line)
    (hfit : lines.length < 20) (hs : Showing s.terminal t) : ∃ s', code s = .ok s' ∧ Reports s' lines := by
  obtain ⟨s', hcode, hshow, hserial, hview⟩ := h s t hs
  have hview := hview (.inr List.mem_cons_self)
  have htext : (10 :: lines.flatMap fun line => line ++ [10]).foldl Text.put t =
      ⟨t.finished ++ [t.current] ++ lines, []⟩ := by
    have hnewline : t.put 10 = ⟨t.finished ++ [t.current], []⟩ := rfl
    rw [List.foldl_cons, hnewline, put_lines hlines]
  rw [htext] at hshow
  refine ⟨s', hcode, ⟨s.serial, hserial.symm⟩, fun i hi col hcol => ?_⟩
  have hlen : (t.finished ++ [t.current] ++ lines).length = t.finished.length + 1 + lines.length := by
    simp only [List.length_append, List.length_singleton]
  have hrow := hshow.row (r := 19 - lines.length + i) (by omega) (.inl (by rw [hlen, hview]; omega))
  have hback : 19 - (19 - lines.length + i) + s'.terminal.viewOffset.toNat = lines.length - i := by
    rw [hview]
    omega
  have hline : (Text.before ⟨t.finished ++ [t.current] ++ lines, []⟩ (lines.length - i)).getD [] = lines.getD i [] := by
    have hidx : t.finished.length + 1 + lines.length - (lines.length - i) = (t.finished ++ [t.current]).length + i := by
      rw [List.length_append, List.length_singleton]
      omega
    rw [Text.before_getD, if_pos ⟨by omega, by rw [hlen]; omega⟩, hlen, hidx, Text.lines, List.append_assoc,
      List.getD_append_right _ _ _ _ (Nat.le_add_right _ _), Nat.add_sub_cancel_left, List.getD_append _ _ _ _ hi]
  rw [hback, hline] at hrow
  have hcell : (24 - lines.length + i : ℤ) = 5 + ((19 - lines.length + i : ℕ) : ℤ) := by omega
  rw [hcell]
  refine hrow col hcol ?_
  rintro (⟨-, hrow, -⟩ | ⟨hpos, -, -⟩ | ⟨-, hrow, -⟩) <;> omega

/-! ## The lines of the panic screen -/

theorem exceptionName_printable {n : UInt8} (hn : n < 32) :
    Printable (CString.ofString (exceptionName n.toUInt32)).chars := by
  have hnames : exceptionNames.all (printableLit 79) = true := by decide
  have hlt : n.toNat < exceptionNames.length := UInt8.lt_iff_toNat_lt.mp hn
  have hword : n.toUInt32 < 32 := UInt32.lt_iff_toNat_lt.mpr hlt
  rw [exceptionName, if_pos hword, UInt8.toNat_toUInt32, List.getD_eq_getElem _ _ hlt]
  exact .lit (List.all_eq_true.mp hnames _ (List.getElem_mem hlt))

section Lines

variable {message : String} {eip intNo errCode eax ebx ecx edx eip' errCode' : UInt32}

theorem panicLines_printable (h : Printable (CString.ofString message).chars) :
    ∀ line ∈ panicLines message eip intNo errCode eax ebx ecx edx, Printable line := by
  have hbanner : Printable (CString.ofString "*** KERNEL PANIC ***").chars := .lit (by decide)
  have hhalted : Printable (CString.ofString "System halted.").chars := .lit (by decide)
  obtain ⟨leip, ceip⟩ := @printableLit_spec 7 "EIP: " (by decide)
  obtain ⟨lint, cint⟩ := @printableLit_spec 7 "  INT: " (by decide)
  obtain ⟨lerr, cerr⟩ := @printableLit_spec 7 "  ERR: " (by decide)
  obtain ⟨leax, ceax⟩ := @printableLit_spec 7 "EAX: " (by decide)
  obtain ⟨lebx, cebx⟩ := @printableLit_spec 7 "  EBX: " (by decide)
  obtain ⟨lecx, cecx⟩ := @printableLit_spec 7 "  ECX: " (by decide)
  obtain ⟨ledx, cedx⟩ := @printableLit_spec 7 "  EDX: " (by decide)
  have hnumber (n : UInt32) : ∀ c ∈ panicPrintHex n, 32 ≤ c := fun c hc => panicPrintHex_mem hc
  have hempty : Printable [] := ⟨Nat.succ_pos _, fun _ hmem => absurd hmem List.not_mem_nil⟩
  simp only [panicLines, List.forall_mem_cons]
  refine ⟨hempty, hbanner, h, ⟨?_, ?_⟩, ⟨?_, ?_⟩, hhalted, fun _ hmem => absurd hmem List.not_mem_nil⟩
  · simp only [List.length_append, panicPrintHex_length]
    omega
  · simp only [List.forall_mem_append]
    exact ⟨⟨⟨⟨⟨ceip, hnumber eip⟩, cint⟩, hnumber intNo⟩, cerr⟩, hnumber errCode⟩
  · simp only [List.length_append, panicPrintHex_length]
    omega
  · simp only [List.forall_mem_append]
    exact ⟨⟨⟨⟨⟨⟨⟨ceax, hnumber eax⟩, cebx⟩, hnumber ebx⟩, cecx⟩, hnumber ecx⟩, cedx⟩, hnumber edx⟩

/-- The text tells the place and the error code. -/
theorem panicLines_inj
    (h : (panicLines message eip intNo errCode eax ebx ecx edx).flatMap (fun line => line ++ [10]) =
      (panicLines message eip' intNo errCode' eax ebx ecx edx).flatMap fun line => line ++ [10]) :
    eip = eip' ∧ errCode = errCode' := by
  have hinj : ∀ a b : UInt32, panicPrintHex a = panicPrintHex b → a = b := by
    intro a b hab
    rw [panicPrintHex_eq, ← printHex_eq, panicPrintHex_eq, ← printHex_eq] at hab
    rw [← hexdumpAddr_printHex a, hab, hexdumpAddr_printHex]
  simp only [panicLines, List.flatMap_cons, List.append_assoc, List.append_cancel_left_eq] at h
  obtain ⟨heip, h⟩ := List.append_inj h (by rw [panicPrintHex_length, panicPrintHex_length])
  simp only [List.append_cancel_left_eq] at h
  obtain ⟨herr, -⟩ := List.append_inj h (by rw [panicPrintHex_length, panicPrintHex_length])
  exact ⟨hinj _ _ heip, hinj _ _ herr⟩

theorem Reports.unique {s : Console} (h : Reports s (panicLines message eip intNo errCode eax ebx ecx edx))
    (h' : Reports s (panicLines message eip' intNo errCode' eax ebx ecx edx)) : eip = eip' ∧ errCode = errCode' := by
  obtain ⟨before, hs⟩ := h.serial
  obtain ⟨before', hs'⟩ := h'.serial
  have hsame := List.append_inj_right' (hs.trans hs'.symm) (by
    simp only [panicLines, List.flatMap_cons, List.flatMap_nil, List.length_append, List.length_cons, List.length_nil,
      panicPrintHex_length])
  exact panicLines_inj (List.cons_injective hsame)

end Lines

/-! ## The registers that the handler gets -/

/-- The word that the handler takes for the error code. -/
def shownErrCode (n : UInt8) (err : Option UInt32) (c : Cpu) : UInt32 :=
  if n ∈ errcodeVectors then err.getD c.eip else 0

/-- The word that it takes for the place of the fault. -/
def shownEip (n : UInt8) (err : Option UInt32) (c : Cpu) : UInt32 :=
  if n ∈ errcodeVectors ∧ err = none then c.cs.toUInt32 else if n ∈ errcodeVectors then c.eip else err.getD c.eip

theorem interruptWords_reverse (n : UInt8) (err : Option UInt32) (c : Cpu) :
    ∃ ds sp rest, (interruptWords n err c).reverse =
      [ds, c.edi, c.esi, c.ebp, sp, c.ebx, c.edx, c.ecx, c.eax, n.toUInt32, shownErrCode n err c,
        shownEip n err c] ++ rest := by
  rw [interruptWords, stubWords, shownErrCode, shownEip]
  by_cases hn : n ∈ errcodeVectors
  · cases err <;> simp only [hn, if_true, if_false, and_self, and_false, reduceCtorEq] <;> exact ⟨_, _, _, rfl⟩
  · cases err <;> simp only [hn, if_false, false_and] <;> exact ⟨_, _, _, rfl⟩

theorem exception_registers {n : UInt8} {err : Option UInt32} {m : Machine} (handler : UInt32)
    (hroom : 60 ≤ m.cpu.esp.toNat) :
    let m' := runEntry (vectorStub n ++ commonEntry) (raiseVector handler err m)
    let r := readRegisters m'.mem m'.cpu.esp
    r.intNo = n.toUInt32 ∧ r.eip = shownEip n err m.cpu ∧ r.errCode = shownErrCode n err m.cpu ∧ r.eax = m.cpu.eax ∧
      r.ebx = m.cpu.ebx ∧ r.ecx = m.cpu.ecx ∧ r.edx = m.cpu.edx := by
  have hlen : (interruptWords n err m.cpu).length ≤ 15 := by
    rw [interruptWords, stubWords]
    split_ifs <;> cases err <;> simp
  obtain ⟨ds, sp, rest, hreverse⟩ := interruptWords_reverse n err m.cpu
  have hwords : (m.mem.pushAll m.cpu.esp (interruptWords n err m.cpu)).WordsAt
      (m.cpu.esp - 4 * UInt32.ofNat (interruptWords n err m.cpu).length) _ :=
    pushAll_wordsAt (by omega)
  rw [hreverse] at hwords
  rw [runEntry_eq]
  exact ⟨hwords 9 (by simp), hwords 11 (by simp), hwords 10 (by simp), hwords 8 (by simp), hwords 5 (by simp),
    hwords 7 (by simp), hwords 6 (by simp)⟩

/-- The handler has the place and the error code right if the stub counts on what the processor has pushed. -/
theorem shown_iff {n : UInt8} {err : Option UInt32} {c : Cpu} (heip : c.eip ≠ 0) :
    (shownEip n err c = c.eip ∧ shownErrCode n err c = err.getD 0) ↔ (err.isSome ↔ n ∈ errcodeVectors) := by
  unfold shownEip shownErrCode
  by_cases hn : n ∈ errcodeVectors
  · cases err with
    | none => simp [hn, heip]
    | some e => simp [hn]
  · cases err with
    | none => simp [hn]
    | some e =>
      simp only [hn, if_false, false_and, Option.getD_some, Option.isSome_some, iff_false, not_true]
      rintro ⟨he, h0⟩
      exact heip (he.symm.trans h0.symm)

/-! ## From the fault to the screen -/

/-- **An exception in the kernel ends on the panic screen**, whatever was printed and wherever the screen was scrolled
to, if the stack has 60 bytes for its frame. **Unless it comes at the address 0, the screen and the serial port have the
place, the error code and the registers of the fault exactly when the stub of the vector counts on an error code and the
processor pushes one, or neither.** -/
theorem exception_reported_iff (code : CodeAddrs) {ops : List TableOp} {calls : List TermOp} {n : UInt8}
    {err : Option UInt32} {m : Machine} (hops : ∀ n < 32, ∀ handler, .registerInterruptHandler n handler ∉ ops)
    (hcalls : ∀ op ∈ calls, op.Writes) (hn : n < 32) (hroom : 60 ≤ m.cpu.esp.toNat) (term₀ : Terminal)
    (serial : List UInt8) :
    ∃ t term s, tableRun code ops = .ok t ∧ run termStep term₀ (.clear :: calls) = .ok term ∧
      takeException t code n err m ⟨term, serial⟩ = .ok (.halted s) ∧
      (m.cpu.eip ≠ 0 → (Reports s (exceptionLines n err m.cpu) ↔ (err.isSome ↔ n ∈ errcodeVectors))) := by
  obtain ⟨t, ht, -, hhandlers⟩ := tableRun_inv code ops
  obtain ⟨term, hterm, hshow⟩ := terminal_run term₀ hcalls
  obtain ⟨hint, hplace, herr, heax, hebx, hecx, hedx⟩ := @exception_registers n err m (code.stub n) hroom
  obtain ⟨r, hr⟩ : ∃ r, r = readRegisters
      (runEntry (vectorStub n ++ commonEntry) (raiseVector (code.stub n) err m)).mem
      (runEntry (vectorStub n ++ commonEntry) (raiseVector (code.stub n) err m)).cpu.esp := ⟨_, rfl⟩
  rw [← hr] at hint hplace herr heax hebx hecx hedx
  have hlines : ∀ line ∈ panicLines (exceptionName r.intNo) r.eip r.intNo r.errCode r.eax r.ebx r.ecx r.edx,
      Printable line := panicLines_printable (by rw [hint]; exact exceptionName_printable hn)
  obtain ⟨s, hs, hreports⟩ := (panic_writes (exceptionName r.intNo) r).reports (s := ⟨term, serial⟩) hlines
    (show 6 < 20 by decide) hshow
  have hhandler : t.handlers r.intNo.toUInt8 = some .exceptionHandler := by
    rw [hint, UInt8.toUInt8_toUInt32]
    exact hhandlers n hn (hops n hn)
  have hvector : r.intNo < 256 := by
    rw [hint, UInt32.lt_iff_toNat_lt, UInt8.toNat_toUInt32]
    exact n.toNat_lt
  refine ⟨t, term, s, ht, hterm, ?_, fun heip => ?_⟩
  · show isrHandler t.handlers (readRegisters _ _) _ = _
    rw [← hr, isrHandler, if_pos hvector, hhandler]
    show (panic (exceptionName r.intNo) (some r) ⟨term, serial⟩ >>= _) = _
    rw [hs]
    rfl
  · rw [hint, hplace, herr, heax, hebx, hecx, hedx] at hreports
    rw [← shown_iff heip]
    constructor
    · intro h
      exact hreports.unique h
    · rintro ⟨hshown, herrShown⟩
      rw [hshown, herrShown] at hreports
      exact hreports

/-- An alignment check, for which the processor pushes an error code and the stub another. -/
theorem exception_reported_iff_alignment :
    ∃ t term s, tableRun ⟨fun n => 0x00100000 + 16 * n.toUInt32, 0x00120000⟩
        [.registerInterruptHandler 32 .timerIrqCallback] = .ok t ∧
      run termStep (bootTerminal fun _ => 0) [.clear, .putchar 65, .scrollUp 3] = .ok term ∧
      takeException t ⟨fun n => 0x00100000 + 16 * n.toUInt32, 0x00120000⟩ 17 (some 0)
        ⟨⟨1, 2, 3, 4, 0x114000, 5, 6, 7, 0x102000, 0x202, 0x08, 0x10, 0x10, 0x10, 0x10, 0x10⟩, zeroMem, []⟩
        ⟨term, []⟩ = .ok (.halted s) ∧
      (Reports s (exceptionLines 17 (some 0)
          ⟨1, 2, 3, 4, 0x114000, 5, 6, 7, 0x102000, 0x202, 0x08, 0x10, 0x10, 0x10, 0x10, 0x10⟩) ↔
        ((some (0 : UInt32)).isSome ↔ 17 ∈ errcodeVectors)) := by
  have hops : ∀ n < (32 : UInt8), ∀ handler,
      TableOp.registerInterruptHandler n handler ∉ [.registerInterruptHandler 32 .timerIrqCallback] := by
    intro n hn handler hmem
    rw [(TableOp.registerInterruptHandler.inj (List.mem_singleton.mp hmem)).1] at hn
    exact absurd hn (by decide)
  obtain ⟨t, term, s, ht, hterm, hhalted, hreports⟩ := @exception_reported_iff
    ⟨fun n => 0x00100000 + 16 * n.toUInt32, 0x00120000⟩ _ [.putchar 65, .scrollUp 3] 17 (some 0)
    ⟨⟨1, 2, 3, 4, 0x114000, 5, 6, 7, 0x102000, 0x202, 0x08, 0x10, 0x10, 0x10, 0x10, 0x10⟩, zeroMem, []⟩ hops
    (by simp [TermOp.Writes, TermOp.Forward]) (by decide) (by decide) (bootTerminal fun _ => 0) []
  exact ⟨t, term, s, ht, hterm, hhalted, hreports (by decide)⟩

end RtosKernel
