import RtosKernel.Lib.Field
import RtosKernel.Lib.Run
import RtosKernel.Proofs.ClockProofs
import RtosKernel.Proofs.LogProofs
import RtosKernel.Proofs.TerminalProofs
import RtosKernel.Uptime

/-!
# Proofs: the uptime in the header

A redraw overlays row 1 with the text of `uptime_display_cb` (`drawUptime_row`). Below a hundred hours that is the
text of the uptime (`uptimeText_eq`), from then on the hours lose their first digits and the next one is not a digit
(`uptimeText_ne`). So the row reads the uptime as long as there are fewer than a hundred hours and the text never
gets shorter.
-/

namespace RtosKernel

open Lib

/-! ## Row 1 -/

theorem vgaPutAt_otherRow {row row' col' : ℤ} (hne : row' ≠ row) (hc' : 0 ≤ col' ∧ col' < 80) (col : ℤ)
    (c color : UInt8) (s : Terminal) : charAt (vgaPutAt row col c color s) row' col' = charAt s row' col' := by
  unfold vgaPutAt
  split_ifs with hin
  · rw [charAt_store ⟨hin.2.2.1, hin.2.2.2⟩ hc', if_neg fun he => hne he.1]
  · rfl

theorem terminalWriteAtCol_otherRow {row : Int32} {row' col' : ℤ} (hne : row' ≠ row.toInt)
    (hc' : 0 ≤ col' ∧ col' < 80) (str : CString) (col : Int32) (color : UInt8) (s : Terminal) :
    charAt (terminalWriteAtCol str row col color s) row' col' = charAt s row' col' := by
  unfold terminalWriteAtCol
  refine List.foldlRecOn (motive := fun t => charAt t row' col' = charAt s row' col') _ _ rfl fun t ht i _ => ?_
  rw [vgaPutAt_otherRow hne hc', ht]

/-- `draw_header` fills the row with dashes. -/
theorem drawHeader_row (s : Terminal) : uptimeRow (drawHeader s) = List.replicate 79 45 := by
  rw [List.eq_replicate_iff]
  refine ⟨by simp [uptimeRow], fun c hc => ?_⟩
  obtain ⟨x, hx, rfl⟩ := List.mem_map.mp hc
  have hcol : 0 ≤ (x : ℤ) ∧ (x : ℤ) < 80 := by
    have := List.mem_range.mp hx
    omega
  have hfill (row : ℤ) (c color : UInt8) (t : Terminal) :
      charAt (fillRow row c color t) 1 x = if 1 = row then c else charAt t 1 x := charAt_fill hcol c color t
  unfold drawHeader
  rw [hfill, if_neg (by decide), terminalWriteAtCol_otherRow (by decide) hcol,
    terminalWriteAtCol_otherRow (by decide) hcol, hfill, if_pos rfl]

theorem drawUptime_charAt {buf : List UInt8} (hlen : buf.length ≤ 79) {col : ℕ} (hcol : col < 79) (s : Terminal) :
    charAt (drawUptime buf s) 1 col =
      if 79 - buf.length ≤ col then buf.getD (col - (79 - buf.length)) 0 else charAt s 1 col := by
  unfold drawUptime
  suffices charAt ((List.range buf.length).foldl (fun s (j : ℕ) => { s with
      vga := Function.update s.vga (vgaWidth + ((vgaWidth : ℤ) - buf.length - 1) + j)
        (vgaEntry (buf.getD j 0) vgaColorDefault) }) s) 1 col =
      if 79 - buf.length ≤ col ∧ col < 79 - buf.length + buf.length then
        buf.getD (col - (79 - buf.length)) 0 else charAt s 1 col by
    have hend : col < 79 - buf.length + buf.length := by omega
    simp only [hend, and_true] at this
    exact this
  -- the first `n` characters are drawn
  refine foldl_range (P := fun n t => charAt t 1 col = if 79 - buf.length ≤ col ∧ col < 79 - buf.length + n then
    buf.getD (col - (79 - buf.length)) 0 else charAt s 1 col) ?_ fun n hn t ht => ?_
  · have hnone : ¬ (79 - buf.length ≤ col ∧ col < 79 - buf.length + 0) := by omega
    rw [if_neg hnone]
  · have hcell : (vgaWidth : ℤ) + (vgaWidth - buf.length - 1) + n =
        1 * vgaWidth + ((79 - buf.length + n : ℕ) : ℤ) := by
      rw [vgaWidth]
      omega
    rw [hcell, charAt_store (by omega) (by omega), ht]
    by_cases he : col = 79 - buf.length + n
    · have hin : 79 - buf.length ≤ col ∧ col < 79 - buf.length + (n + 1) := by omega
      have hidx : col - (79 - buf.length) = n := by omega
      rw [if_pos hin, hidx, if_pos ⟨rfl, by exact_mod_cast he⟩]
    · have hiff : (79 - buf.length ≤ col ∧ col < 79 - buf.length + (n + 1)) ↔
          79 - buf.length ≤ col ∧ col < 79 - buf.length + n := by omega
      rw [if_neg fun h => he (by exact_mod_cast h.2)]
      simp only [hiff]

/-- A redraw overlays the row. -/
theorem drawUptime_row {buf : List UInt8} (hlen : buf.length ≤ 79) (s : Terminal) :
    uptimeRow (drawUptime buf s) = overlay (uptimeRow s) buf := by
  have hwidth : (uptimeRow s).length = 79 := by simp [uptimeRow]
  rw [overlay, hwidth]
  apply List.ext_getElem
  · simp only [uptimeRow, List.length_map, List.length_range, List.length_append, List.length_take]
    omega
  · intro col h1 h2
    have hcol : col < 79 := by simpa [uptimeRow] using h1
    simp only [uptimeRow, List.getElem_map, List.getElem_range, List.getElem_append, List.length_take,
      List.length_map, List.length_range, List.getElem_take]
    rw [drawUptime_charAt hlen hcol]
    have hmin : min (79 - buf.length) 79 = 79 - buf.length := by omega
    by_cases hin : 79 - buf.length ≤ col
    · have hlt : col - (79 - buf.length) < buf.length := by omega
      rw [if_pos hin, dif_neg (by omega), List.getD_eq_getElem _ _ hlt]
      simp only [hmin]
    · rw [if_neg hin, dif_pos (by omega)]

/-! ## The text -/

theorem digit_toUInt8 (d : UInt32) : (48 + d).toUInt8 = 48 + UInt8.ofNat d.toNat := by
  rw [UInt32.toUInt8_add]
  simp

/-- A number below a hundred is written in decimal. -/
theorem uptimeField_eq_decimal {n : UInt32} (h : n.toNat < 100) : uptimeField n = decimal n.toNat := by
  unfold uptimeField
  rw [digit_toUInt8, digit_toUInt8, UInt32.toNat_div, UInt32.toNat_mod]
  by_cases h10 : n.toNat < 10
  · have hsmall : ¬ n ≥ 10 := by
      rw [ge_iff_le, UInt32.le_iff_toNat_le]
      exact not_le.mpr h10
    rw [if_neg hsmall, decimal_of_lt h10, List.nil_append]
    simp [Nat.mod_eq_of_lt h10]
  · have hlarge : n ≥ 10 := by
      rw [ge_iff_le, UInt32.le_iff_toNat_le]
      exact not_lt.mp h10
    have htens : n.toNat / 10 < 10 := by omega
    rw [if_pos hlarge, decimal_of_le (not_lt.mp h10), decimal_of_lt htens]
    rfl

theorem uptimeField_length_le (n : UInt32) : (uptimeField n).length ≤ 2 := by
  unfold uptimeField
  split_ifs <;> simp

variable {sec : UInt32}

theorem hours_toNat (sec : UInt32) : (sec / 60 / 60).toNat = sec.toNat / 3600 := by
  rw [UInt32.toNat_div, UInt32.toNat_div]
  exact Nat.div_div_eq_div_mul ..

/-- The minutes and the seconds are right always. -/
theorem uptimeText_hours (sec : UInt32) :
    uptimeText sec = (if 1 ≤ sec.toNat / 3600 then uptimeField (sec / 60 / 60) ++ [104] else []) ++
      decimal (sec.toNat / 60 % 60) ++ [109] ++ decimal (sec.toNat % 60) ++ [115] := by
  have hpos : sec / 60 / 60 > 0 ↔ 1 ≤ sec.toNat / 3600 := by
    rw [gt_iff_lt, UInt32.lt_iff_toNat_lt, hours_toNat]
    rfl
  have hmin : (sec / 60 % 60).toNat = sec.toNat / 60 % 60 := by
    rw [UInt32.toNat_mod, UInt32.toNat_div]
    rfl
  have hsec : (sec % 60).toNat = sec.toNat % 60 := by
    rw [UInt32.toNat_mod]
    rfl
  have hmin' := uptimeField_eq_decimal (n := sec / 60 % 60) (by omega)
  have hsec' := uptimeField_eq_decimal (n := sec % 60) (by omega)
  rw [hmin] at hmin'
  rw [hsec] at hsec'
  simp only [uptimeText, hmin', hsec', hpos]

theorem uptimeText_eq (h : sec.toNat / 3600 < 100) : uptimeText sec = uptimeClock sec.toNat := by
  have hhours := uptimeField_eq_decimal (n := sec / 60 / 60) (by rwa [hours_toNat])
  rw [hours_toNat] at hhours
  rw [uptimeText_hours, hhours, uptimeClock]

theorem uptimeText_length_le (sec : UInt32) : (uptimeText sec).length ≤ 9 := by
  have hhours := uptimeField_length_le (sec / 60 / 60)
  have hmin : (decimal (sec.toNat / 60 % 60)).length ≤ 2 := (decimal_length_le_iff two_pos).mpr (by omega)
  have hsec : (decimal (sec.toNat % 60)).length ≤ 2 := (decimal_length_le_iff two_pos).mpr (by omega)
  rw [uptimeText_hours]
  split_ifs <;> simp only [List.length_append, List.length_singleton, List.length_nil] <;> omega

/-- From a hundred hours on, the row does not read the uptime, whatever was there before: where the tens of the
hours belong there is the character of a larger number. A 32-bit tick counter reaches 11930 hours. -/
theorem overlay_uptimeText_ne (h : 100 ≤ sec.toNat / 3600) (hmax : sec.toNat / 3600 < 12800) (line : List UInt8) :
    overlay line (uptimeText sec) ≠ (uptimeClock sec.toNat).leftpad 79 45 := by
  have hpos : 1 ≤ sec.toNat / 3600 := by omega
  have hten : sec / 60 / 60 ≥ 10 := by
    rw [ge_iff_le, UInt32.le_iff_toNat_le, hours_toNat]
    show 10 ≤ sec.toNat / 3600
    omega
  obtain ⟨rest, hrest⟩ : ∃ rest, rest = [48 + UInt8.ofNat (sec.toNat / 3600 % 10)] ++ [104] ++
      decimal (sec.toNat / 60 % 60) ++ [109] ++ decimal (sec.toNat % 60) ++ [115] := ⟨_, rfl⟩
  have htext : uptimeText sec = [48 + UInt8.ofNat (sec.toNat / 3600 / 10)] ++ rest := by
    rw [uptimeText_hours, if_pos hpos, uptimeField, if_pos hten, digit_toUInt8, digit_toUInt8, UInt32.toNat_div,
      UInt32.toNat_mod, hours_toNat, hrest]
    simp only [List.append_assoc]
    rfl
  have hclock : uptimeClock sec.toNat = decimal (sec.toNat / 3600 / 10 / 10) ++
      [48 + UInt8.ofNat (sec.toNat / 3600 / 10 % 10)] ++ rest := by
    rw [uptimeClock, if_pos hpos, decimal_of_le (n := sec.toNat / 3600) (by omega),
      decimal_of_le (n := sec.toNat / 3600 / 10) (by omega), hrest]
    simp only [List.append_assoc]
  intro he
  rw [overlay, List.leftpad, htext, hclock, ← List.append_assoc, ← List.append_assoc, ← List.append_assoc,
    List.append_cancel_right_eq] at he
  -- the two characters in the place of the tens
  have htens := (List.append_inj' he rfl).2
  have hcode := congrArg UInt8.toNat (List.singleton_inj.mp htens)
  simp only [UInt8.toNat_add, UInt8.toNat_ofNat'] at hcode
  have h48 : (48 : UInt8).toNat = 48 := rfl
  omega

theorem dash_not_mem_decimal (n : ℕ) : 45 ∉ decimal n :=
  fun h => absurd (digit_of_mem_decimal h).1 (by decide)

theorem dash_not_mem_clock (n : ℕ) : 45 ∉ uptimeClock n := by
  have hm := dash_not_mem_decimal (n / 60 % 60)
  have hs := dash_not_mem_decimal (n % 60)
  have hh := dash_not_mem_decimal (n / 3600)
  unfold uptimeClock
  split_ifs <;> simp [hm, hs, hh]

theorem dash_not_mem_clockText (shown : Option UInt32) : 45 ∉ clockText shown := by
  cases shown with
  | none => exact List.not_mem_nil
  | some sec => exact dash_not_mem_clock sec.toNat

/-! ## One tick -/

section Tick

variable (body : Callbacks) (cb : Callback) {s : UptimeSys}

theorem uptimeCall_twice (s : UptimeSys) : uptimeCall (uptimeCall s) = uptimeCall s := by
  by_cases hsec : getUptimeSec s.timer = s.screen.lastSec
  · simp [uptimeCall, uptimeDisplayCb, hsec]
  · simp [uptimeCall, uptimeDisplayCb, hsec]

/-- A tick redraws the uptime if the callback is called and the second is a new one, and draws nothing else. -/
theorem uptimeTick_cases (s : UptimeSys) :
    let r := timerIrqCallback body s.timer
    let sec := getUptimeSec r.1
    (¬ (cb ∈ r.2 ∧ sec ≠ s.screen.lastSec) ∧ uptimeTick body cb s = { s with timer := r.1 }) ∨
    (cb ∈ r.2 ∧ sec ≠ s.screen.lastSec ∧ uptimeTick body cb s =
      { timer := r.1
        screen :=
          { term := drawUptime (uptimeText sec) s.screen.term
            lastSec := sec
            written := record (uptimeStores (uptimeText sec)) s.screen.written }
        shown := some sec }) := by
  intro r sec
  have hcalls : uptimeTick body cb s =
      if cb ∈ r.2 then uptimeCall { s with timer := r.1 } else { s with timer := r.1 } :=
    foldl_call_once uptimeCall_twice cb r.2 _
  rw [hcalls]
  by_cases hcb : cb ∈ r.2
  · by_cases hsec : sec = s.screen.lastSec
    · refine Or.inl ⟨fun h => h.2 hsec, ?_⟩
      have hold : getUptimeSec r.1 = s.screen.lastSec := hsec
      simp [hcb, uptimeCall, uptimeDisplayCb, hold]
    · refine Or.inr ⟨hcb, hsec, ?_⟩
      have hnew : getUptimeSec r.1 ≠ s.screen.lastSec := hsec
      simp [hcb, uptimeCall, uptimeDisplayCb, hnew, sec]
  · exact Or.inl ⟨fun h => hcb h.1, if_neg hcb⟩

theorem timerIrqCallback_freq (t : Timer) :
    (timerIrqCallback body t).1.timerFreqHz = t.timerFreqHz := (serveCallbacks_keeps timerMaxCallbacks 0 _).2

/-- The largest uptime of a 32-bit tick counter at 100 Hz is 11930 hours. -/
theorem uptime_hours_lt {t : Timer} (h : t.timerFreqHz = 100) : (getUptimeSec t).toNat / 3600 < 12800 := by
  have hticks := t.timerTicks.toNat_lt
  have h100 : (100 : UInt32).toNat = 100 := rfl
  rw [getUptimeSec, h, UInt32.toNat_div, h100]
  omega

/-- The row reads the uptime, and it has read less than a hundred hours since `draw_header`. -/
structure UptimeInv (s : UptimeSys) : Prop where
  freq : s.timer.timerFreqHz = 100
  shows : ShowsUptime s
  hours : ∀ sec, s.shown = some sec → sec.toNat / 3600 < 100

theorem UptimeInv.length_le (h : UptimeInv s) : (clockText s.shown).length ≤ 79 := by
  cases hs : s.shown with
  | none => exact Nat.zero_le _
  | some sec =>
    have hlen := uptimeText_length_le sec
    rw [uptimeText_eq (h.hours sec hs)] at hlen
    exact hlen.trans (by decide)

/-- Below a hundred hours, a redraw is right if and only if it covers the text that is there. -/
theorem UptimeInv.redraw_iff (h : UptimeInv s) (hsec : sec.toNat / 3600 < 100) :
    uptimeRow (drawUptime (uptimeText sec) s.screen.term) = (uptimeClock sec.toNat).leftpad 79 45 ↔
      (clockText s.shown).length ≤ (uptimeClock sec.toNat).length := by
  have hlen := uptimeText_length_le sec
  rw [drawUptime_row (hlen.trans (by decide)), h.shows, uptimeText_eq hsec]
  rw [uptimeText_eq hsec] at hlen
  exact overlay_leftpad_iff (dash_not_mem_clockText s.shown) h.length_le (hlen.trans (by decide))

theorem UptimeInv.tick (h : UptimeInv s) (hfit : RedrawFits body cb s) : UptimeInv (uptimeTick body cb s) := by
  have hfreq := (timerIrqCallback_freq body s.timer).trans h.freq
  rcases uptimeTick_cases body cb s with ⟨-, he⟩ | ⟨hcb, hnew, he⟩
  · rw [he]
    exact ⟨hfreq, h.shows, h.hours⟩
  · obtain ⟨hhours, hlen⟩ := hfit hcb hnew
    rw [he]
    refine ⟨hfreq, (h.redraw_iff hhours).mpr hlen, ?_⟩
    intro sec hsec
    obtain rfl := Option.some.inj hsec
    exact hhours

theorem UptimeInv.redrawFits (h : UptimeInv s) (hs : ShowsUptime (uptimeTick body cb s)) :
    RedrawFits body cb s := by
  unfold RedrawFits
  intro r sec hcb hnew
  rcases uptimeTick_cases body cb s with ⟨hnone, -⟩ | ⟨-, -, he⟩
  · exact absurd ⟨hcb, hnew⟩ hnone
  · rw [he] at hs
    have hrow : uptimeRow (drawUptime (uptimeText sec) s.screen.term) =
        (uptimeClock sec.toNat).leftpad 79 45 := hs
    have hhours : sec.toNat / 3600 < 100 := by
      by_contra hmany
      have hmax := uptime_hours_lt ((timerIrqCallback_freq body s.timer).trans h.freq)
      rw [drawUptime_row ((uptimeText_length_le sec).trans (by decide))] at hrow
      exact overlay_uptimeText_ne (not_lt.mp hmany) hmax _ hrow
    exact ⟨hhours, (h.redraw_iff hhours).mp hrow⟩

end Tick

/-! ## Runs -/

theorem uptimeInv_start (timer : Timer) (screen : Screen) : UptimeInv (uptimeStart timer screen) where
  freq := rfl
  shows := drawHeader_row screen.term
  hours := fun _ hsec => nomatch hsec

/-- **After `draw_header`, row 1 reads the current uptime at every redraw if and only if there are fewer than a
hundred hours at every redraw and no text is shorter than the one before it.** -/
theorem uptime_display_iff (body : Callbacks) (cb : Callback) (timer : Timer) (screen : Screen) (ticks : ℕ) :
    (∀ n ≤ ticks, ShowsUptime ((uptimeTick body cb)^[n] (uptimeStart timer screen))) ↔
      ∀ n < ticks, RedrawFits body cb ((uptimeTick body cb)^[n] (uptimeStart timer screen)) := by
  refine iterate_iff (I := UptimeInv) (uptimeInv_start timer screen) ?_ ?_ ?_ ticks
  · exact fun s h => h.shows
  · exact fun s h hfit => h.tick body cb hfit
  · exact fun s h hs => h.redrawFits body cb hs

/-- A minute after boot: `0m59s` is longer than `1m0s`, and row 1 reads `01m0s`. -/
theorem uptime_keeps_old_digit :
    let timer : Timer :=
      { timerTicks := 5899, timerFreqHz := 100, callbacks := fun _ => some 1, cbCount := 1, cbCount_le := by decide }
    let screen : Screen := { bootScreen (fun _ => 0) with lastSec := 58 }
    let s := (uptimeTick (fun _ => []) 1)^[101] (uptimeStart timer screen)
    s.shown = some 60 ∧ (uptimeRow s.screen.term).drop 73 = [45, 48, 49, 109, 48, 115] ∧ ¬ ShowsUptime s := by
  unfold ShowsUptime
  decide +kernel

end RtosKernel
