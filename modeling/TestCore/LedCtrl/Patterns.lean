/-
The patterns of the lights (`led_nmea_ctrl`, `led_wifi1_ctrl`, `led_wifi2_ctrl`).

Each light has a status, which other code sets, and a timer, which counts the ticks of its control
function. A pattern starts again when the timer, counted up, is exactly its period. The timer stays
when the status changes, so a pattern may find it at its period already, or past it. Then nothing
ever sets it back. The pattern for missing data also counts its flashes, in a cycle counter that
only this pattern keeps.

`patterns_cycle` says which changes do no harm.
-/
import TestCore.Lib.Run

set_option autoImplicit false

namespace TestCore.LedCtrl

open TestCore.Lib

/-! ## The lights -/

/-- What `led_control` leaves in `iLedControlValue`. -/
def led_control (iLedStatus iLedBitMask iLedControlValue : UInt16) : UInt16 :=
  (iLedControlValue &&& ~~~iLedBitMask) ||| iLedStatus

def LED_NMEA_BIT_MASK : UInt16 := .ofNat ((0x3 <<< 2) ||| (0x3 <<< 6))
def LED_NMEA_RED_ON : UInt16 := .ofNat ((0x0 <<< 2) ||| (0x0 <<< 6) ||| (0x1 <<< 3) ||| (0x1 <<< 7))
def LED_NMEA_GREEN_ON : UInt16 :=
  .ofNat ((0x0 <<< 3) ||| (0x0 <<< 7) ||| (0x1 <<< 2) ||| (0x1 <<< 6))
def LED_NMEA_OFF : UInt16 := .ofNat ((0x3 <<< 2) ||| (0x3 <<< 6))

def LED_WIFI2_BIT_MASK : UInt16 := .ofNat (0x3 <<< 4)
def LED_WIFI2_RED_ON : UInt16 := .ofNat ((0x1 <<< 4) ||| (0x0 <<< 5))
def LED_WIFI2_GREEN_ON : UInt16 := .ofNat ((0x1 <<< 5) ||| (0x0 <<< 4))
def LED_WIFI2_OFF : UInt16 := .ofNat (0x3 <<< 4)

def LED_WIFI1_BIT_MASK : UInt16 := .ofNat (0x3 <<< 14)
def LED_WIFI1_RED_ON : UInt16 := .ofNat ((0x0 <<< 14) ||| (0x1 <<< 15))
def LED_WIFI1_GREEN_ON : UInt16 := .ofNat ((0x0 <<< 15) ||| (0x1 <<< 14))
def LED_WIFI1_OFF : UInt16 := .ofNat (0x3 <<< 14)

/-- `timer++; if(timer==period) timer=0;` -/
def count (period timer : ℕ) : ℕ := if timer + 1 = period then 0 else timer + 1

/-- The two red flashes of a fault. -/
def faultLight (RED_ON OFF BIT_MASK : UInt16) (timer : ℕ) (iLedControlValue : UInt16) : UInt16 :=
  if timer < 25 then led_control RED_ON BIT_MASK iLedControlValue
  else if 25 ≤ timer ∧ timer < 80 then led_control OFF BIT_MASK iLedControlValue
  else if 80 ≤ timer ∧ timer < 105 then led_control RED_ON BIT_MASK iLedControlValue
  else if 105 ≤ timer ∧ timer < 400 then led_control OFF BIT_MASK iLedControlValue
  else iLedControlValue

/-! ### NMEA -/

inductive NmeaStatus where
  | LED_NMEA_ALL_FINE
  | LED_NMEA_BUS_NO_CONNECT
  | LED_NMEA_BUS_NO_DATE
  deriving DecidableEq, Repr

structure Nmea where
  led_nmea_status : NmeaStatus := .LED_NMEA_ALL_FINE
  led_nmea_timer : ℕ := 0
  led_nmea_cycle : ℕ := 0
  deriving DecidableEq, Repr

/-- What the pattern for missing data does with the value. At the ticks 480 and 505 it does
nothing. -/
def noDataLight (timer cycle : ℕ) (iLedControlValue : UInt16) : UInt16 :=
  let first :=
    if timer < 480 then
      if cycle * 80 ≤ timer ∧ timer < 80 * cycle + 25 then
        led_control LED_NMEA_RED_ON LED_NMEA_BIT_MASK iLedControlValue
      else led_control LED_NMEA_OFF LED_NMEA_BIT_MASK iLedControlValue
    else iLedControlValue
  let second :=
    if timer < 505 ∧ 480 < timer then led_control LED_NMEA_RED_ON LED_NMEA_BIT_MASK first
    else first
  if timer < 900 ∧ 505 < timer then led_control LED_NMEA_OFF LED_NMEA_BIT_MASK second else second

/-- What a tick shows. -/
def Nmea.shown (s : Nmea) (iLedControlValue : UInt16) : UInt16 :=
  match s.led_nmea_status with
  | .LED_NMEA_ALL_FINE =>
      if s.led_nmea_timer < 50 then led_control LED_NMEA_OFF LED_NMEA_BIT_MASK iLedControlValue
      else if 50 ≤ s.led_nmea_timer ∨ s.led_nmea_timer < 1500 then
        led_control LED_NMEA_GREEN_ON LED_NMEA_BIT_MASK iLedControlValue
      else iLedControlValue
  | .LED_NMEA_BUS_NO_CONNECT =>
      faultLight LED_NMEA_RED_ON LED_NMEA_OFF LED_NMEA_BIT_MASK s.led_nmea_timer iLedControlValue
  | .LED_NMEA_BUS_NO_DATE => noDataLight s.led_nmea_timer s.led_nmea_cycle iLedControlValue

/-- What a tick counts. -/
def Nmea.counted (s : Nmea) : Nmea :=
  match s.led_nmea_status with
  | .LED_NMEA_ALL_FINE => { s with led_nmea_timer := count 1500 s.led_nmea_timer }
  | .LED_NMEA_BUS_NO_CONNECT => { s with led_nmea_timer := count 400 s.led_nmea_timer }
  | .LED_NMEA_BUS_NO_DATE =>
      let timer := s.led_nmea_timer + 1
      let cycle :=
        if timer % 80 = 0 ∧ timer < 480 then s.led_nmea_cycle + 1 else s.led_nmea_cycle
      if timer = 900 then { s with led_nmea_timer := 0, led_nmea_cycle := 0 }
      else { s with led_nmea_timer := timer, led_nmea_cycle := cycle }

/-- A tick: the branch for the status shows something, then it counts. -/
def led_nmea_ctrl (s : Nmea) (iLedControlValue : UInt16) : Nmea × UInt16 :=
  (s.counted, s.shown iLedControlValue)

/-! ### WiFi

The two functions differ in their variables and pins only. -/

inductive WifiStatus where
  | LED_WIFI_ACT
  | LED_WIFI_TRANS
  | LED_WIFI_FAULT
  | LED_OFF_WIFI
  deriving DecidableEq, Repr

structure Wifi where
  led_wifi_status : WifiStatus := .LED_WIFI_ACT
  led_wifi_timer : ℕ := 0
  deriving DecidableEq, Repr

def Wifi.shown (GREEN_ON RED_ON OFF BIT_MASK : UInt16) (s : Wifi) (iLedControlValue : UInt16) :
    UInt16 :=
  match s.led_wifi_status with
  | .LED_WIFI_ACT =>
      if s.led_wifi_timer < 1450 then led_control GREEN_ON BIT_MASK iLedControlValue
      else led_control OFF BIT_MASK iLedControlValue
  | .LED_WIFI_TRANS =>
      if s.led_wifi_timer < 50 then led_control GREEN_ON BIT_MASK iLedControlValue
      else led_control OFF BIT_MASK iLedControlValue
  | .LED_WIFI_FAULT => faultLight RED_ON OFF BIT_MASK s.led_wifi_timer iLedControlValue
  | .LED_OFF_WIFI => led_control OFF BIT_MASK iLedControlValue

def Wifi.counted (s : Wifi) : Wifi :=
  match s.led_wifi_status with
  | .LED_WIFI_ACT => { s with led_wifi_timer := count 1500 s.led_wifi_timer }
  | .LED_WIFI_TRANS => { s with led_wifi_timer := count 100 s.led_wifi_timer }
  | .LED_WIFI_FAULT => { s with led_wifi_timer := count 400 s.led_wifi_timer }
  | .LED_OFF_WIFI => s

def led_wifi_ctrl (GREEN_ON RED_ON OFF BIT_MASK : UInt16) (s : Wifi) (iLedControlValue : UInt16) :
    Wifi × UInt16 :=
  (s.counted, s.shown GREEN_ON RED_ON OFF BIT_MASK iLedControlValue)

def led_wifi1_ctrl : Wifi → UInt16 → Wifi × UInt16 :=
  led_wifi_ctrl LED_WIFI1_GREEN_ON LED_WIFI1_RED_ON LED_WIFI1_OFF LED_WIFI1_BIT_MASK

def led_wifi2_ctrl : Wifi → UInt16 → Wifi × UInt16 :=
  led_wifi_ctrl LED_WIFI2_GREEN_ON LED_WIFI2_RED_ON LED_WIFI2_OFF LED_WIFI2_BIT_MASK

/-! ### All of them -/

structure Leds where
  iLedControlValue : UInt16 := 0xFFFF
  nmea : Nmea := {}
  wifi1 : Wifi := {}
  wifi2 : Wifi := {}

/-- What may happen to a light: its status is set, or its control function runs. -/
inductive LightEvent (status : Type) where
  | change (v : status)
  | tick
  deriving DecidableEq

inductive LedEvent where
  | nmea (e : LightEvent NmeaStatus)
  | wifi1 (e : LightEvent WifiStatus)
  | wifi2 (e : LightEvent WifiStatus)
  deriving DecidableEq

def Leds.step (w : Leds) : LedEvent → Leds
  | .nmea (.change v) => { w with nmea := { w.nmea with led_nmea_status := v } }
  | .nmea .tick =>
      let (nmea, value) := led_nmea_ctrl w.nmea w.iLedControlValue
      { w with nmea := nmea, iLedControlValue := value }
  | .wifi1 (.change v) => { w with wifi1 := { w.wifi1 with led_wifi_status := v } }
  | .wifi1 .tick =>
      let (wifi1, value) := led_wifi1_ctrl w.wifi1 w.iLedControlValue
      { w with wifi1 := wifi1, iLedControlValue := value }
  | .wifi2 (.change v) => { w with wifi2 := { w.wifi2 with led_wifi_status := v } }
  | .wifi2 .tick =>
      let (wifi2, value) := led_wifi2_ctrl w.wifi2 w.iLedControlValue
      { w with wifi2 := wifi2, iLedControlValue := value }

/-! ## One light

The period of a pattern, and what is asked of the counters before a tick. -/

def NmeaStatus.period : NmeaStatus → ℕ
  | .LED_NMEA_ALL_FINE => 1500
  | .LED_NMEA_BUS_NO_CONNECT => 400
  | .LED_NMEA_BUS_NO_DATE => 900

/-- The light that is off has no timer to keep. -/
def WifiStatus.period : WifiStatus → Option ℕ
  | .LED_WIFI_ACT => some 1500
  | .LED_WIFI_TRANS => some 100
  | .LED_WIFI_FAULT => some 400
  | .LED_OFF_WIFI => none

/-- The timer is in the pattern, and so is the number of its flashes. -/
def Nmea.Fits (s : Nmea) (v : NmeaStatus) : Prop :=
  s.led_nmea_timer < v.period ∧
    (v = .LED_NMEA_BUS_NO_DATE → s.led_nmea_timer < 480 →
      s.led_nmea_cycle = s.led_nmea_timer / 80)

def Wifi.Fits (s : Wifi) (v : WifiStatus) : Prop := ∀ period ∈ v.period, s.led_wifi_timer < period

instance (s : Nmea) (v : NmeaStatus) : Decidable (s.Fits v) :=
  inferInstanceAs (Decidable (_ ∧ (_ → _ → _)))

instance (s : Wifi) (v : WifiStatus) : Decidable (s.Fits v) :=
  inferInstanceAs (Decidable (∀ period ∈ v.period, s.led_wifi_timer < period))

/-- The pattern goes on as it is meant to. -/
def Nmea.Cycles (s : Nmea) : Prop := s.Fits s.led_nmea_status

def Wifi.Cycles (s : Wifi) : Prop := s.Fits s.led_wifi_status

instance (s : Nmea) : Decidable s.Cycles := inferInstanceAs (Decidable (s.Fits _))

instance (s : Wifi) : Decidable s.Cycles := inferInstanceAs (Decidable (s.Fits _))

def Nmea.step (s : Nmea) : LightEvent NmeaStatus → Nmea
  | .change v => { s with led_nmea_status := v }
  | .tick => s.counted

def Wifi.step (s : Wifi) : LightEvent WifiStatus → Wifi
  | .change v => { s with led_wifi_status := v }
  | .tick => s.counted

theorem count_lt {period timer : ℕ} (h : timer < period) : count period timer < period := by
  unfold count
  split <;> omega

/-- A tick keeps the pattern going. -/
theorem Nmea.Cycles.counted {s : Nmea} (h : s.Cycles) : s.counted.Cycles := by
  obtain ⟨status, timer, cycle⟩ := s
  obtain ⟨htimer, hcycle⟩ := h
  cases status with
  | LED_NMEA_ALL_FINE => exact ⟨count_lt htimer, nofun⟩
  | LED_NMEA_BUS_NO_CONNECT => exact ⟨count_lt htimer, nofun⟩
  | LED_NMEA_BUS_NO_DATE =>
      replace htimer : timer < 900 := htimer
      replace hcycle : timer < 480 → cycle = timer / 80 := hcycle rfl
      by_cases hend : timer + 1 = 900
      · simp [Nmea.Cycles, Nmea.Fits, Nmea.counted, hend, NmeaStatus.period]
      · simp only [Nmea.Cycles, Nmea.Fits, Nmea.counted, if_neg hend, NmeaStatus.period]
        refine ⟨by omega, fun _ hlow => ?_⟩
        have hbefore := hcycle (by omega)
        split <;> omega

theorem Wifi.Cycles.counted {s : Wifi} (h : s.Cycles) : s.counted.Cycles := by
  obtain ⟨status, timer⟩ := s
  cases status with
  | LED_WIFI_ACT =>
      intro period hp
      cases hp
      exact count_lt (h _ rfl)
  | LED_WIFI_TRANS =>
      intro period hp
      cases hp
      exact count_lt (h _ rfl)
  | LED_WIFI_FAULT =>
      intro period hp
      cases hp
      exact count_lt (h _ rfl)
  | LED_OFF_WIFI => exact h

theorem Nmea.Cycles.tick (s : Nmea) (h : s.Cycles) : (s.step .tick).Cycles := h.counted

theorem Wifi.Cycles.tick (s : Wifi) (h : s.Cycles) : (s.step .tick).Cycles := h.counted

theorem Nmea.cycles_change (s : Nmea) (v : NmeaStatus) : (s.step (.change v)).Cycles ↔ s.Fits v :=
  Iff.rfl

theorem Wifi.cycles_change (s : Wifi) (v : WifiStatus) : (s.step (.change v)).Cycles ↔ s.Fits v :=
  Iff.rfl

/-! ### What becomes of a light that is only ticked -/

/-- Below the period, the timer goes round. -/
theorem count_of_lt {period timer : ℕ} (h : timer < period) :
    count period timer = (timer + 1) % period := by
  unfold count
  by_cases heq : timer + 1 = period
  · rw [if_pos heq, heq, Nat.mod_self]
  · rw [if_neg heq, Nat.mod_eq_of_lt (by omega)]

/-- At the period or past it, the timer only goes up. -/
theorem count_of_le {period timer : ℕ} (h : period ≤ timer) : count period timer = timer + 1 := by
  unfold count
  rw [if_neg (by omega)]

theorem Nmea.counted_status (s : Nmea) : s.counted.led_nmea_status = s.led_nmea_status := by
  obtain ⟨status, timer, cycle⟩ := s
  cases status with
  | LED_NMEA_ALL_FINE => rfl
  | LED_NMEA_BUS_NO_CONNECT => rfl
  | LED_NMEA_BUS_NO_DATE =>
      unfold Nmea.counted
      dsimp only
      split <;> rfl

theorem Nmea.counted_timer (s : Nmea) :
    s.counted.led_nmea_timer = count s.led_nmea_status.period s.led_nmea_timer := by
  obtain ⟨status, timer, cycle⟩ := s
  cases status with
  | LED_NMEA_ALL_FINE => rfl
  | LED_NMEA_BUS_NO_CONNECT => rfl
  | LED_NMEA_BUS_NO_DATE =>
      unfold Nmea.counted count NmeaStatus.period
      dsimp only
      split <;> rfl

theorem Wifi.counted_status (s : Wifi) : s.counted.led_wifi_status = s.led_wifi_status := by
  obtain ⟨status, timer⟩ := s
  cases status <;> rfl

theorem Wifi.counted_timer (s : Wifi) {period : ℕ} (h : s.led_wifi_status.period = some period) :
    s.counted.led_wifi_timer = count period s.led_wifi_timer := by
  obtain ⟨status, timer⟩ := s
  cases status <;> cases h <;> rfl

/-- In the pattern, the timer goes round for ever. Outside, it never comes back. -/
theorem count_iterate (period timer n : ℕ) :
    (count period)^[n] timer = if timer < period then (timer + n) % period else timer + n := by
  induction n with
  | zero =>
      by_cases h : timer < period
      · rw [if_pos h, Nat.add_zero, Nat.mod_eq_of_lt h]
        rfl
      · rw [if_neg h]
        rfl
  | succ n ih =>
      rw [Function.iterate_succ_apply', ih]
      by_cases h : timer < period
      · rw [if_pos h, if_pos h, count_of_lt (Nat.mod_lt _ (by omega)), Nat.mod_add_mod,
          Nat.add_assoc]
      · rw [if_neg h, if_neg h, count_of_le (by omega), Nat.add_assoc]

theorem Nmea.ticks (s : Nmea) (n : ℕ) :
    (run Nmea.step s (List.replicate n .tick)).led_nmea_timer =
      (count s.led_nmea_status.period)^[n] s.led_nmea_timer := by
  induction n generalizing s with
  | zero => rfl
  | succ n ih =>
      rw [List.replicate_succ, run_cons, ih, Function.iterate_succ_apply]
      show (count s.counted.led_nmea_status.period)^[n] s.counted.led_nmea_timer = _
      rw [Nmea.counted_status, Nmea.counted_timer]

theorem Wifi.ticks (s : Wifi) {period : ℕ} (h : s.led_wifi_status.period = some period) (n : ℕ) :
    (run Wifi.step s (List.replicate n .tick)).led_wifi_timer =
      (count period)^[n] s.led_wifi_timer := by
  induction n generalizing s with
  | zero => rfl
  | succ n ih =>
      rw [List.replicate_succ, run_cons, Function.iterate_succ_apply]
      have hnext : (s.step .tick).led_wifi_status.period = some period := by
        rw [show s.step .tick = s.counted from rfl, Wifi.counted_status, h]
      rw [ih _ hnext]
      show (count period)^[n] s.counted.led_wifi_timer = _
      rw [Wifi.counted_timer s h]

/-- **A pattern that the timer is not in is stuck**: the timer never gets back to a start. -/
theorem Nmea.stuck (s : Nmea) (h : s.led_nmea_status.period ≤ s.led_nmea_timer) (n : ℕ) :
    (run Nmea.step s (List.replicate n .tick)).led_nmea_timer = s.led_nmea_timer + n := by
  rw [Nmea.ticks, count_iterate, if_neg (by omega)]

theorem Wifi.stuck (s : Wifi) {period : ℕ} (h : s.led_wifi_status.period = some period)
    (hle : period ≤ s.led_wifi_timer) (n : ℕ) :
    (run Wifi.step s (List.replicate n .tick)).led_wifi_timer = s.led_wifi_timer + n := by
  rw [Wifi.ticks s h, count_iterate, if_neg (by omega)]

/-- **A pattern that the timer is in is shown from its start again and again.** -/
theorem Nmea.goes_round (s : Nmea) (h : s.led_nmea_timer < s.led_nmea_status.period) (n : ℕ) :
    (run Nmea.step s (List.replicate n .tick)).led_nmea_timer =
      (s.led_nmea_timer + n) % s.led_nmea_status.period := by
  rw [Nmea.ticks, count_iterate, if_pos h]

theorem Wifi.goes_round (s : Wifi) {period : ℕ} (h : s.led_wifi_status.period = some period)
    (hlt : s.led_wifi_timer < period) (n : ℕ) :
    (run Wifi.step s (List.replicate n .tick)).led_wifi_timer =
      (s.led_wifi_timer + n) % period := by
  rw [Wifi.ticks s h, count_iterate, if_pos hlt]

/-! ### Runs of one light -/

section Light

variable {status : Type} {L : Type} (step : L → LightEvent status → L)

/-- Every change that a tick comes right after is to a pattern that fits. -/
def ChangesFit (Fits : L → status → Prop) (s : L) (es : List (LightEvent status)) : Prop :=
  ∀ pre v post, es = pre ++ .change v :: .tick :: post → Fits (run step s pre) v

/-- A light cycles at every tick exactly if its changes fit. -/
theorem ticks_cycle_iff {Fits : L → status → Prop} {Cycles : L → Prop}
    (htick : ∀ s, Cycles s → Cycles (step s .tick))
    (hchange : ∀ s v, Cycles (step s (.change v)) ↔ Fits s v) {s : L} (h0 : Cycles s)
    (es : List (LightEvent status)) :
    Along step (fun s e => e = .tick → Cycles s) s es ↔ ChangesFit step Fits s es := by
  have hset : ∀ s e, ¬ e = .tick → (Cycles (step s e) ↔ ∀ v, e = .change v → Fits s v) := by
    intro s e he
    cases e with
    | tick => exact absurd rfl he
    | change v =>
        rw [hchange]
        refine ⟨?_, fun h => h v rfl⟩
        rintro h v' h'
        cases h'
        exact h
  have hkeep : ∀ s e, e = .tick → Cycles s → Cycles (step s e) := by
    rintro s e rfl h
    exact htick s h
  rw [along_iff_before hkeep hset h0]
  constructor
  · rintro h pre v post rfl
    exact h pre _ _ post rfl nofun rfl v rfl
  · rintro h pre e e' post rfl - rfl v rfl
    exact h pre v post rfl

end Light

/-! ## All lights -/

def LedEvent.toNmea : LedEvent → Option (LightEvent NmeaStatus)
  | .nmea e => some e
  | _ => none

def LedEvent.toWifi1 : LedEvent → Option (LightEvent WifiStatus)
  | .wifi1 e => some e
  | _ => none

def LedEvent.toWifi2 : LedEvent → Option (LightEvent WifiStatus)
  | .wifi2 e => some e
  | _ => none

theorem step_nmea (w : Leds) (e : LedEvent) :
    (w.step e).nmea = e.toNmea.elim w.nmea w.nmea.step := by
  rcases e with (v | _) | (v | _) | (v | _) <;> rfl

theorem step_wifi1 (w : Leds) (e : LedEvent) :
    (w.step e).wifi1 = e.toWifi1.elim w.wifi1 w.wifi1.step := by
  rcases e with (v | _) | (v | _) | (v | _) <;> rfl

theorem step_wifi2 (w : Leds) (e : LedEvent) :
    (w.step e).wifi2 = e.toWifi2.elim w.wifi2 w.wifi2.step := by
  rcases e with (v | _) | (v | _) | (v | _) <;> rfl

/-- Before a tick, the light that it is for cycles. -/
def Leds.TickCycles (w : Leds) : LedEvent → Prop
  | .nmea .tick => w.nmea.Cycles
  | .wifi1 .tick => w.wifi1.Cycles
  | .wifi2 .tick => w.wifi2.Cycles
  | _ => True

instance (w : Leds) (e : LedEvent) : Decidable (w.TickCycles e) := by
  unfold Leds.TickCycles
  split <;> infer_instance

theorem tickCycles_iff (w : Leds) (e : LedEvent) :
    w.TickCycles e ↔ (∀ a ∈ e.toNmea, a = .tick → w.nmea.Cycles) ∧
      (∀ a ∈ e.toWifi1, a = .tick → w.wifi1.Cycles) ∧
      ∀ a ∈ e.toWifi2, a = .tick → w.wifi2.Cycles := by
  rcases e with (v | _) | (v | _) | (v | _) <;>
    simp [Leds.TickCycles, LedEvent.toNmea, LedEvent.toWifi1, LedEvent.toWifi2]

/-- **When the patterns keep cycling.** In every order of changes and ticks, each light is in its
pattern before each of its ticks exactly if every change of a status that a tick follows is made
while the timer, and for missing data the number of flashes, fits the new pattern. -/
theorem patterns_cycle (es : List LedEvent) :
    Along Leds.step Leds.TickCycles {} es ↔
      ChangesFit Nmea.step Nmea.Fits {} (es.filterMap LedEvent.toNmea) ∧
        ChangesFit Wifi.step Wifi.Fits {} (es.filterMap LedEvent.toWifi1) ∧
        ChangesFit Wifi.step Wifi.Fits {} (es.filterMap LedEvent.toWifi2) := by
  have hnmea := ticks_cycle_iff Nmea.step Nmea.Cycles.tick Nmea.cycles_change (s := {}) (by decide)
  have hwifi := ticks_cycle_iff Wifi.step Wifi.Cycles.tick Wifi.cycles_change (s := {}) (by decide)
  rw [← hnmea, ← hwifi, ← hwifi, ← along_part step_nmea _ {}, ← along_part step_wifi1 _ {},
    ← along_part step_wifi2 _ {}, ← along_and_iff, ← along_and_iff]
  exact along_congr Leds.step (D := fun _ _ => True) (fun w e _ => tickCycles_iff w e)
    (along_of_forall Leds.step _ fun _ _ => trivial)

/-- A connected light, after 100 ticks, is past the pattern for a transfer. -/
theorem patterns_stuck : ¬ ∀ es, Along Leds.step Leds.TickCycles {} es := by
  intro h
  have hrun := h (List.replicate 100 (.wifi1 .tick) ++
    [.wifi1 (.change .LED_WIFI_TRANS), .wifi1 .tick])
  revert hrun
  decide +kernel

end TestCore.LedCtrl
