import RtosKernel.Log
import RtosKernel.Screen
import RtosKernel.Timer

/-!
# The uptime in the header (`kernel.c`, `timer.c`)

`kernel_main` registers `uptime_display_cb` with the timer, so the uptime is drawn from inside the timer
interrupt, over the row of dashes of `draw_header` and over the text that it drew itself a second ago.

Left out: what the other callbacks do outside the timer, and what else is drawn between two ticks; none of it
is in row 1.
-/

namespace RtosKernel

open Lib

/-! ## The ticks -/

/-- The timer and the screen. `shown` is a history variable that no code reads: the uptime of the last redraw
since `draw_header`. -/
structure UptimeSys where
  timer : Timer
  screen : Screen
  shown : Option UInt32

/-- A call of `uptime_display_cb`. -/
def uptimeCall (s : UptimeSys) : UptimeSys :=
  let sec := getUptimeSec s.timer
  { s with
    screen := uptimeDisplayCb sec s.screen
    shown := if sec = s.screen.lastSec then s.shown else some sec }

/-- `timer_irq_callback`, with the calls of `uptime_display_cb`, whose address is `cb`. The timer is the one after
all calls; this makes no difference to `get_uptime_sec`, as no callback changes the tick count. -/
def uptimeTick (body : Callbacks) (cb : Callback) (s : UptimeSys) : UptimeSys :=
  let r := timerIrqCallback body s.timer
  r.2.foldl (fun s c => if c = cb then uptimeCall s else s) { s with timer := r.1 }

/-- The header has just been drawn, at boot or by the command `clear`. The timer runs at the 100 Hz of
`init_timer(100)`. -/
def uptimeStart (timer : Timer) (screen : Screen) : UptimeSys where
  timer := { timer with timerFreqHz := 100 }
  screen := { screen with term := drawHeader screen.term, written := record headerStores screen.written }
  shown := none

/-! ## What the row is to read -/

/-- The uptime as a text: the hours if there are any, the minutes and the seconds. -/
def uptimeClock (n : ℕ) : List UInt8 :=
  (if 1 ≤ n / 3600 then decimal (n / 3600) ++ [104] else []) ++ decimal (n / 60 % 60) ++ [109] ++
    decimal (n % 60) ++ [115]

/-- The text of the last redraw; before the first one there is none. -/
def clockText : Option UInt32 → List UInt8
  | none => []
  | some sec => uptimeClock sec.toNat

/-- The characters of row 1 up to column 78. -/
def uptimeRow (s : Terminal) : List UInt8 := (List.range 79).map fun (x : ℕ) => charAt s 1 x

/-- Row 1 reads the uptime of the last redraw, up to column 78, and dashes before it. -/
def ShowsUptime (s : UptimeSys) : Prop := uptimeRow s.screen.term = (clockText s.shown).leftpad 79 45

/-- If the next tick redraws, then fewer than a hundred hours, and a text that is not shorter than the one that
is there. -/
def RedrawFits (body : Callbacks) (cb : Callback) (s : UptimeSys) : Prop :=
  let r := timerIrqCallback body s.timer
  let sec := getUptimeSec r.1
  cb ∈ r.2 → sec ≠ s.screen.lastSec →
    sec.toNat / 3600 < 100 ∧ (clockText s.shown).length ≤ (uptimeClock sec.toNat).length

end RtosKernel
