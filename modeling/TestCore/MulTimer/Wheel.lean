/-
The timers of `mul_timer.c`: a table of ten, and a signal handler that counts for all of them.

`set_a_timer` takes the first entry that is not in use, `del_a_timer` clears one, and every
`SIGALRM` lets `sig_func` add one to each `elapse` and call what is due. A callback here does
not touch the timers itself.

No entry has to do with another. So a tick is described by what it does to one entry
(`sig_func_entry`), and the schedule of a timer is an induction over the events that follow its
`set_a_timer` (`Running.step`): `elapse` is the number of ticks since then modulo the interval.
A call that fails may have cleared an entry and written a callback into it, but only one that
is not in use.

The argument of a callback is a list of bytes, so `arg_len` is its length and never negative.
-/
import TestCore.Lib.CString
import TestCore.Lib.Run

set_option autoImplicit false

namespace TestCore.MulTimer

open TestCore.Lib

/-! ## The table -/

def MAX_TIMER_CNT : ℕ := 10

instance : NeZero MAX_TIMER_CNT := ⟨by decide⟩

def MAX_FUNC_ARG_LEN : ℕ := 100

/-- A callback, by its address. -/
abbrev Proc := ℕ

/-- An entry of `timer_info`. -/
structure TimerInfo where
  state : ℤ
  interval : ℤ
  elapse : ℤ
  timer_proc : Option Proc
  func_arg : Bytes
  arg_len : ℕ
  deriving DecidableEq, Repr

/-- An entry after `memset`. -/
def TimerInfo.zero : TimerInfo := ⟨0, 0, 0, none, List.replicate MAX_FUNC_ARG_LEN 0, 0⟩

/-- A call of a callback: in which tick, for which entry, and with which argument. -/
structure Call where
  tick : ℕ
  i : Fin MAX_TIMER_CNT
  timer_proc : Option Proc
  arg : Bytes
  deriving DecidableEq, Repr

/-- `timer_manage`, the number of ticks so far, and the calls that were made. -/
structure Timers where
  timer_info : Fin MAX_TIMER_CNT → TimerInfo
  ticks : ℕ
  calls : List Call

/-- `init_mul_timer`. -/
def init_mul_timer : Timers := ⟨fun _ => .zero, 0, []⟩

def Timers.put (w : Timers) (i : Fin MAX_TIMER_CNT) (s : TimerInfo) : Timers :=
  { w with timer_info := Function.update w.timer_info i s }

/-- The arguments of `set_a_timer`; `none` is `NULL`. -/
structure Request where
  interval : ℤ
  timer_proc : Option Proc
  arg : Option Bytes
  deriving DecidableEq, Repr

/-- The entry that the loop of `set_a_timer` stops at. -/
def Timers.free? (w : Timers) : Option (Fin MAX_TIMER_CNT) :=
  (List.finRange MAX_TIMER_CNT).find? fun i => (w.timer_info i).state ≠ 1

/-- The entry with its interval, switched on. -/
def TimerInfo.start (s : TimerInfo) (interval : ℤ) : TimerInfo :=
  { s with interval := interval, elapse := 0, state := 1 }

def set_a_timer (w : Timers) (r : Request) : Timers × ℤ :=
  if r.timer_proc = none ∨ r.interval ≤ 0 then (w, -1)
  else
    match w.free? with
    | none => (w, -1)
    | some i =>
        let s := { TimerInfo.zero with timer_proc := r.timer_proc }
        match r.arg with
        | none => (w.put i (s.start r.interval), i)
        | some arg =>
            -- The entry has been written to by then.
            if MAX_FUNC_ARG_LEN < arg.length then (w.put i s, -1)
            else
              let s := { s with
                func_arg := arg ++ s.func_arg.drop arg.length
                arg_len := arg.length }
              (w.put i (s.start r.interval), i)

def del_a_timer (w : Timers) (handle : ℤ) : Timers × ℤ :=
  if h : handle < 0 ∨ (MAX_TIMER_CNT : ℤ) ≤ handle then (w, -1)
  else (w.put ⟨handle.toNat, by omega⟩ .zero, 0)

/-- The body of the loop of `sig_func`. -/
def sig_func.entry (w : Timers) (i : Fin MAX_TIMER_CNT) : Timers :=
  let s := w.timer_info i
  if s.state = 0 then w
  else
    let s := { s with elapse := s.elapse + 1 }
    if s.elapse = s.interval then
      { w.put i { s with elapse := 0 } with
        calls := w.calls ++ [⟨w.ticks, i, s.timer_proc, s.func_arg.take s.arg_len⟩] }
    else w.put i s

def sig_func (w : Timers) : Timers :=
  (List.finRange MAX_TIMER_CNT).foldl sig_func.entry { w with ticks := w.ticks + 1 }

inductive Event where
  | set (r : Request)
  | del (handle : ℤ)
  | tick
  deriving DecidableEq, Repr

def Event.isTick : Event → Bool
  | .tick => true
  | _ => false

def Timers.step (w : Timers) : Event → Timers
  | .set r => (set_a_timer w r).1
  | .del handle => (del_a_timer w handle).1
  | .tick => sig_func w

/-! ## A tick, entry by entry -/

/-- What a tick makes of an entry. -/
def TimerInfo.tick (s : TimerInfo) : TimerInfo :=
  if s.state = 0 then s
  else { s with elapse := if s.elapse + 1 = s.interval then 0 else s.elapse + 1 }

/-- The callback is called in this tick. -/
def TimerInfo.due (s : TimerInfo) : Bool := s.state ≠ 0 ∧ s.elapse + 1 = s.interval

/-- The calls for one entry. -/
def Timers.callsOf (w : Timers) (i : Fin MAX_TIMER_CNT) : List Call :=
  w.calls.filter fun c => c.i = i

/-- The calls for entry `i` in a tick. -/
def TimerInfo.callsAt (s : TimerInfo) (tick : ℕ) (i : Fin MAX_TIMER_CNT) : List Call :=
  if s.due then [⟨tick, i, s.timer_proc, s.func_arg.take s.arg_len⟩] else []

theorem entry_eq (w : Timers) (i : Fin MAX_TIMER_CNT) :
    sig_func.entry w i
      = { w.put i (w.timer_info i).tick with
          calls := w.calls ++ (w.timer_info i).callsAt w.ticks i } := by
  unfold sig_func.entry TimerInfo.callsAt TimerInfo.due TimerInfo.tick Timers.put
  by_cases hoff : (w.timer_info i).state = 0
  · simp [hoff]
  · by_cases hdue : (w.timer_info i).elapse + 1 = (w.timer_info i).interval
    · simp [hoff, hdue]
    · simp [hoff, hdue]

theorem callsAt_filter (s : TimerInfo) (tick : ℕ) (i j : Fin MAX_TIMER_CNT) :
    (s.callsAt tick j).filter (fun c => c.i = i) = if j = i then s.callsAt tick j else [] := by
  unfold TimerInfo.callsAt
  split_ifs with hdue hij
  · simp [hij]
  · simp [hij]
  · rfl
  · rfl

theorem entry_self (w : Timers) (i : Fin MAX_TIMER_CNT) :
    (sig_func.entry w i).timer_info i = (w.timer_info i).tick ∧
      (sig_func.entry w i).callsOf i = w.callsOf i ++ (w.timer_info i).callsAt w.ticks i := by
  rw [entry_eq]
  refine ⟨Function.update_self _ _ _, ?_⟩
  unfold Timers.callsOf
  rw [List.filter_append, callsAt_filter, if_pos rfl]

theorem entry_other (w : Timers) {i j : Fin MAX_TIMER_CNT} (hij : j ≠ i) :
    (sig_func.entry w j).timer_info i = w.timer_info i ∧
      (sig_func.entry w j).callsOf i = w.callsOf i := by
  rw [entry_eq]
  refine ⟨Function.update_of_ne hij.symm _ _, ?_⟩
  unfold Timers.callsOf
  rw [List.filter_append, callsAt_filter, if_neg hij, List.append_nil]

/-- The loop over some of the entries. -/
theorem foldl_entry (w : Timers) {l : List (Fin MAX_TIMER_CNT)} (hl : l.Nodup)
    (i : Fin MAX_TIMER_CNT) :
    (l.foldl sig_func.entry w).ticks = w.ticks ∧
      (l.foldl sig_func.entry w).timer_info i
        = (if i ∈ l then (w.timer_info i).tick else w.timer_info i) ∧
      (l.foldl sig_func.entry w).callsOf i
        = w.callsOf i ++ if i ∈ l then (w.timer_info i).callsAt w.ticks i else [] := by
  induction l generalizing w with
  | nil => simp
  | cons j l ih =>
      obtain ⟨hj, hl⟩ := List.nodup_cons.mp hl
      obtain ⟨hticks, hinfo, hcalls⟩ := ih (sig_func.entry w j) hl
      have hsame : (sig_func.entry w j).ticks = w.ticks := by
        rw [entry_eq]
        rfl
      rw [List.foldl_cons, hticks, hinfo, hcalls, hsame]
      refine ⟨rfl, ?_⟩
      rcases eq_or_ne j i with rfl | hij
      · -- The entry is done, and does not come again.
        obtain ⟨hself, hself'⟩ := entry_self w j
        rw [if_neg hj, if_neg hj, if_pos List.mem_cons_self, if_pos List.mem_cons_self, hself,
          hself', List.append_nil]
        exact ⟨rfl, rfl⟩
      · obtain ⟨hother, hother'⟩ := entry_other w hij
        have hmem : i ∈ j :: l ↔ i ∈ l := by simp [hij.symm]
        rw [hother, hother']
        simp only [hmem, and_self]

/-- A tick, as one entry sees it. -/
theorem sig_func_entry (w : Timers) (i : Fin MAX_TIMER_CNT) :
    (sig_func w).ticks = w.ticks + 1 ∧
      (sig_func w).timer_info i = (w.timer_info i).tick ∧
      (sig_func w).callsOf i = w.callsOf i ++ (w.timer_info i).callsAt (w.ticks + 1) i := by
  have hloop := foldl_entry { w with ticks := w.ticks + 1 } (List.nodup_finRange MAX_TIMER_CNT) i
  rw [if_pos (List.mem_finRange i), if_pos (List.mem_finRange i)] at hloop
  exact hloop

/-! ## Setting and deleting -/

/-- What the entry of a timer is like that was set with `r`. -/
structure TimerInfo.SetFrom (s : TimerInfo) (r : Request) : Prop where
  state : s.state = 1
  interval : s.interval = r.interval
  positive : 0 < r.interval
  timer_proc : s.timer_proc = r.timer_proc
  arg : s.func_arg.take s.arg_len = r.arg.getD []

theorem free?_some {w : Timers} {i : Fin MAX_TIMER_CNT} (h : w.free? = some i) :
    (w.timer_info i).state ≠ 1 := by
  simpa using List.find?_some h

/-- What `set_a_timer` does: nothing, or it fails with an entry that is not in use, or it makes
such an entry a timer. -/
theorem set_cases (w : Timers) (r : Request) :
    set_a_timer w r = (w, -1) ∨
      (∃ i s, (w.timer_info i).state ≠ 1 ∧ s.state = 0 ∧ set_a_timer w r = (w.put i s, -1)) ∨
      ∃ i s, (w.timer_info i).state ≠ 1 ∧ s.SetFrom r ∧ s.elapse = 0 ∧
        set_a_timer w r = (w.put i s, (i : ℤ)) := by
  unfold set_a_timer
  by_cases hbad : r.timer_proc = none ∨ r.interval ≤ 0
  · rw [if_pos hbad]
    exact Or.inl rfl
  · rw [if_neg hbad]
    have hpos : 0 < r.interval := not_le.mp (fun hc => hbad (Or.inr hc))
    rcases hfree : w.free? with _ | i
    · exact Or.inl rfl
    · have hoff := free?_some hfree
      rcases harg : r.arg with _ | arg
      · refine Or.inr (Or.inr ⟨i, _, hoff, ?_, rfl, rfl⟩)
        exact ⟨rfl, rfl, hpos, rfl, by rw [harg]; rfl⟩
      · dsimp only
        split_ifs with hlong
        · exact Or.inr (Or.inl ⟨i, _, hoff, rfl, rfl⟩)
        · refine Or.inr (Or.inr ⟨i, _, hoff, ?_, rfl, rfl⟩)
          exact ⟨rfl, rfl, hpos, rfl, by rw [harg]; exact List.take_left⟩

/-- `set_a_timer` refuses nothing about the request. -/
def Request.Valid (r : Request) : Prop :=
  r.timer_proc ≠ none ∧ 0 < r.interval ∧ (r.arg.getD []).length ≤ MAX_FUNC_ARG_LEN

instance (r : Request) : Decidable r.Valid := inferInstanceAs (Decidable (_ ∧ _))

theorem free?_isSome_iff (w : Timers) :
    w.free? ≠ none ↔ ∃ i, (w.timer_info i).state ≠ 1 := by
  unfold Timers.free?
  rw [Ne, List.find?_eq_none]
  simp

/-- When `set_a_timer` gives out a handle, and which. -/
theorem set_result_iff (w : Timers) (r : Request) (i : Fin MAX_TIMER_CNT) :
    (set_a_timer w r).2 = i ↔ r.Valid ∧ w.free? = some i := by
  have hfail : (-1 : ℤ) ≠ i := by omega
  unfold set_a_timer Request.Valid
  by_cases hbad : r.timer_proc = none ∨ r.interval ≤ 0
  · rw [if_pos hbad]
    refine ⟨fun hc => absurd hc hfail, ?_⟩
    rintro ⟨⟨hproc, hpos, -⟩, -⟩
    rcases hbad with hnone | hneg
    · exact absurd hnone hproc
    · omega
  · rw [if_neg hbad]
    have hproc : r.timer_proc ≠ none := fun hc => hbad (Or.inl hc)
    have hpos : 0 < r.interval := not_le.mp (fun hc => hbad (Or.inr hc))
    have hsome : ∀ j : Fin MAX_TIMER_CNT, ((j : ℕ) : ℤ) = i ↔ some j = some i := by
      intro j
      rw [Option.some.injEq, Fin.ext_iff]
      exact_mod_cast Iff.rfl
    rcases hfree : w.free? with _ | j
    · exact ⟨fun hc => absurd hc hfail, fun hc => absurd hc.2 nofun⟩
    · rcases harg : r.arg with _ | arg
      · dsimp only
        rw [hsome]
        exact ⟨fun hc => ⟨⟨hproc, hpos, Nat.zero_le _⟩, hc⟩, fun hc => hc.2⟩
      · dsimp only
        split_ifs with hlong
        · refine ⟨fun hc => absurd hc hfail, ?_⟩
          rintro ⟨⟨-, -, hshort⟩, -⟩
          exact absurd hshort (not_le.mpr hlong)
        · rw [hsome]
          exact ⟨fun hc => ⟨⟨hproc, hpos, not_lt.mp hlong⟩, hc⟩, fun hc => hc.2⟩

/-- The causes of a `-1`: the request, or that all entries are in use. -/
theorem set_accepts_iff (w : Timers) (r : Request) :
    (set_a_timer w r).2 ≠ -1 ↔ r.Valid ∧ ∃ i, (w.timer_info i).state ≠ 1 := by
  rw [← free?_isSome_iff]
  constructor
  · intro hr
    obtain ⟨i, hi⟩ : ∃ i : Fin MAX_TIMER_CNT, (set_a_timer w r).2 = i := by
      rcases set_cases w r with hset | ⟨i, s, -, -, hset⟩ | ⟨i, s, -, -, -, hset⟩
      · exact absurd (by rw [hset]) hr
      · exact absurd (by rw [hset]) hr
      · exact ⟨i, by rw [hset]⟩
    obtain ⟨hvalid, hslot⟩ := (set_result_iff w r i).mp hi
    refine ⟨hvalid, ?_⟩
    rw [hslot]
    simp
  · rintro ⟨hvalid, hfree⟩
    obtain ⟨i, hslot⟩ := Option.ne_none_iff_exists'.mp hfree
    have hi := (set_result_iff w r i).mpr ⟨hvalid, hslot⟩
    rw [hi]
    omega

theorem put_self (w : Timers) (i : Fin MAX_TIMER_CNT) (s : TimerInfo) :
    (w.put i s).timer_info i = s := Function.update_self _ _ _

theorem put_other (w : Timers) {i j : Fin MAX_TIMER_CNT} (hij : i ≠ j) (s : TimerInfo) :
    (w.put i s).timer_info j = w.timer_info j := Function.update_of_ne hij.symm _ _

/-- What `del_a_timer` does: nothing, or it clears the entry. -/
theorem del_cases (w : Timers) (handle : ℤ) :
    del_a_timer w handle = (w, -1) ∨
      ∃ i : Fin MAX_TIMER_CNT, handle = i ∧ del_a_timer w handle = (w.put i .zero, 0) := by
  unfold del_a_timer
  split_ifs with hout
  · exact Or.inl rfl
  · refine Or.inr ⟨⟨handle.toNat, by omega⟩, ?_, rfl⟩
    dsimp only
    omega

theorem del_handle (w : Timers) (i : Fin MAX_TIMER_CNT) :
    del_a_timer w (i : ℤ) = (w.put i .zero, 0) := by
  have hin : ¬ ((i : ℤ) < 0 ∨ (MAX_TIMER_CNT : ℤ) ≤ i) := by
    have hlt := i.isLt
    omega
  unfold del_a_timer
  rw [dif_neg hin]
  rfl

/-! ## A step, entry by entry -/

/-- What a call of `set_a_timer` or `del_a_timer` can do to entry `i`: nothing, switch it off, or
make it a timer. A timer in use is only switched off by deleting it. -/
inductive Changed (w : Timers) (e : Event) (i : Fin MAX_TIMER_CNT) (s : TimerInfo) : Prop
  | same (h : s = w.timer_info i)
  | off (h : s.state = 0) (hcause : (w.timer_info i).state = 1 → e = .del i)
  | set (r : Request) (he : e = .set r) (hi : (set_a_timer w r).2 = i)
      (hfree : (w.timer_info i).state ≠ 1) (hs : s.SetFrom r) (helapse : s.elapse = 0)

/-- A step, as one entry sees it. -/
theorem step_entry (w : Timers) (e : Event) (i : Fin MAX_TIMER_CNT) :
    (e = .tick ∧ w.step e = sig_func w) ∨
      (e ≠ .tick ∧ (w.step e).ticks = w.ticks ∧ (w.step e).calls = w.calls ∧
        Changed w e i ((w.step e).timer_info i)) := by
  rcases e with r | handle | _
  · refine Or.inr ⟨nofun, ?_⟩
    show (set_a_timer w r).1.ticks = _ ∧ (set_a_timer w r).1.calls = _ ∧
      Changed w _ i ((set_a_timer w r).1.timer_info i)
    rcases set_cases w r with hset | ⟨j, s, hfree, hs, hset⟩ | ⟨j, s, hfree, hs, helapse, hset⟩
    · rw [hset]
      exact ⟨rfl, rfl, .same rfl⟩
    · rw [hset]
      refine ⟨rfl, rfl, ?_⟩
      rcases eq_or_ne j i with rfl | hji
      · rw [put_self]
        exact .off hs (fun hon => absurd hon hfree)
      · exact .same (put_other w hji s)
    · have hresult : (set_a_timer w r).2 = j := by rw [hset]
      rw [hset]
      refine ⟨rfl, rfl, ?_⟩
      rcases eq_or_ne j i with rfl | hji
      · rw [put_self]
        exact .set r rfl hresult hfree hs helapse
      · exact .same (put_other w hji s)
  · refine Or.inr ⟨nofun, ?_⟩
    show (del_a_timer w handle).1.ticks = _ ∧ (del_a_timer w handle).1.calls = _ ∧
      Changed w _ i ((del_a_timer w handle).1.timer_info i)
    rcases del_cases w handle with hdel | ⟨j, rfl, hdel⟩
    · rw [hdel]
      exact ⟨rfl, rfl, .same rfl⟩
    · rw [hdel]
      refine ⟨rfl, rfl, ?_⟩
      rcases eq_or_ne j i with rfl | hji
      · rw [put_self]
        exact .off rfl (fun _ => rfl)
      · exact .same (put_other w hji _)
  · exact Or.inl ⟨rfl, rfl⟩

theorem step_ticks (w : Timers) (e : Event) :
    (w.step e).ticks = w.ticks + if e.isTick then 1 else 0 := by
  rcases step_entry w e 0 with ⟨rfl, hstep⟩ | ⟨hne, hticks, -⟩
  · rw [hstep, (sig_func_entry w 0).1]
    rfl
  · have hfalse : e.isTick = false := by
      rcases e with r | handle | _
      · rfl
      · rfl
      · exact absurd rfl hne
    rw [hticks, hfalse]
    rfl

theorem run_ticks (w : Timers) (es : List Event) :
    (run Timers.step w es).ticks = w.ticks + es.countP Event.isTick := by
  induction es generalizing w with
  | nil => rfl
  | cons e es ih =>
      rw [run_cons, ih, step_ticks, List.countP_cons]
      ring

/-! ## Every entry is sound -/

/-- An entry is off, or counts below its interval. -/
def TimerInfo.Sound (s : TimerInfo) : Prop :=
  s.state = 0 ∨ s.state = 1 ∧ 0 ≤ s.elapse ∧ s.elapse < s.interval

theorem TimerInfo.Sound.tick {s : TimerInfo} (h : s.Sound) : s.tick.Sound := by
  unfold TimerInfo.tick
  rcases h with hoff | ⟨hon, hlow, hhigh⟩
  · rw [if_pos hoff]
    exact Or.inl hoff
  · rw [if_neg (by omega)]
    refine Or.inr ⟨hon, ?_⟩
    dsimp only
    split_ifs
    · omega
    · omega

theorem sound_step (w : Timers) (e : Event) (h : ∀ i, (w.timer_info i).Sound) :
    ∀ i, ((w.step e).timer_info i).Sound := by
  intro i
  rcases step_entry w e i with ⟨-, hstep⟩ | ⟨-, -, -, hchanged⟩
  · rw [hstep, (sig_func_entry w i).2.1]
    exact (h i).tick
  · rcases hchanged with hsame | hoff | ⟨r, -, -, -, hs, helapse⟩
    · rw [hsame]
      exact h i
    · exact Or.inl hoff
    · refine Or.inr ⟨hs.state, ?_⟩
      have hpos := hs.positive
      rw [helapse, hs.interval]
      omega

/-! ## The schedule of a timer -/

/-- The calls for a timer that was set with `r` after tick `t`, in the `n` ticks that follow:
one in every tick whose distance is a multiple of the interval. -/
def schedule (r : Request) (i : Fin MAX_TIMER_CNT) (t n : ℕ) : List Call :=
  ((List.range n).filter fun j => r.interval ∣ (j + 1 : ℕ)).map fun j =>
    ⟨t + (j + 1), i, r.timer_proc, r.arg.getD []⟩

theorem schedule_succ (r : Request) (i : Fin MAX_TIMER_CNT) (t n : ℕ) :
    schedule r i t (n + 1) = schedule r i t n ++
      if r.interval ∣ (n + 1 : ℕ) then [⟨t + (n + 1), i, r.timer_proc, r.arg.getD []⟩] else [] := by
  unfold schedule
  rw [List.range_succ, List.filter_append, List.map_append]
  congr 1
  rw [List.filter_singleton]
  by_cases hdvd : r.interval ∣ (n + 1 : ℕ)
  · rw [if_pos hdvd, decide_eq_true hdvd]
    rfl
  · rw [if_neg hdvd, decide_eq_false hdvd]
    rfl

/-- Counting modulo `k`. -/
theorem next_mod {k : ℤ} (hk : 0 < k) (n : ℤ) :
    (n % k + 1 = k ↔ k ∣ n + 1) ∧ (n + 1) % k = if n % k + 1 = k then 0 else n % k + 1 := by
  have hlow := Int.emod_nonneg n hk.ne'
  have hhigh := Int.emod_lt_of_pos n hk
  have hadd : (n + 1) % k = (n % k + 1) % k := (Int.emod_add_emod n k 1).symm
  by_cases hfull : n % k + 1 = k
  · have hzero : (n + 1) % k = 0 := by rw [hadd, hfull, Int.emod_self]
    rw [if_pos hfull]
    exact ⟨⟨fun _ => Int.dvd_of_emod_eq_zero hzero, fun _ => hfull⟩, hzero⟩
  · have hnext : (n + 1) % k = n % k + 1 := by
      rw [hadd]
      exact Int.emod_eq_of_lt (by omega) (by omega)
    rw [if_neg hfull]
    refine ⟨⟨fun hc => absurd hc hfull, fun hdvd => ?_⟩, hnext⟩
    have hzero := Int.emod_eq_zero_of_dvd hdvd
    omega

/-- A timer that was set with `r` after tick `t`, when there had been the calls `before` for its
entry. -/
structure Running (r : Request) (i : Fin MAX_TIMER_CNT) (t : ℕ) (before : List Call)
    (w : Timers) : Prop where
  entry : (w.timer_info i).SetFrom r
  since : t ≤ w.ticks
  elapse : (w.timer_info i).elapse = ((w.ticks - t : ℕ) : ℤ) % r.interval
  calls : w.callsOf i = before ++ schedule r i t (w.ticks - t)

/-- Nothing that concerns the timer has changed. -/
theorem Running.same {r : Request} {i : Fin MAX_TIMER_CNT} {t : ℕ} {before : List Call}
    {w w' : Timers} (h : Running r i t before w) (hticks : w'.ticks = w.ticks)
    (hinfo : w'.timer_info i = w.timer_info i) (hcalls : w'.callsOf i = w.callsOf i) :
    Running r i t before w' := by
  refine ⟨?_, ?_, ?_, ?_⟩
  · rw [hinfo]
    exact h.entry
  · rw [hticks]
    exact h.since
  · rw [hinfo, hticks]
    exact h.elapse
  · rw [hcalls, hticks]
    exact h.calls

/-- One more tick that the entry has counted. -/
theorem Running.counted {r : Request} {i : Fin MAX_TIMER_CNT} {t : ℕ} {before : List Call}
    {w w' : Timers} (h : Running r i t before w) (hticks : w'.ticks = w.ticks + 1)
    (hinfo : w'.timer_info i = (w.timer_info i).tick)
    (hcalls : w'.callsOf i = w.callsOf i ++ (w.timer_info i).callsAt (w.ticks + 1) i) :
    Running r i t before w' := by
  obtain ⟨hdvd, hmod⟩ := next_mod h.entry.positive ((w.ticks - t : ℕ) : ℤ)
  have hon : (w.timer_info i).state ≠ 0 := by
    rw [h.entry.state]
    exact one_ne_zero
  have hsince := h.since
  have hcount : w.ticks + 1 - t = w.ticks - t + 1 := by omega
  refine ⟨?_, by omega, ?_, ?_⟩
  · rw [hinfo]
    unfold TimerInfo.tick
    rw [if_neg hon]
    exact ⟨h.entry.state, h.entry.interval, h.entry.positive, h.entry.timer_proc, h.entry.arg⟩
  · rw [hinfo, hticks, hcount]
    unfold TimerInfo.tick
    rw [if_neg hon]
    push_cast
    rw [h.elapse, h.entry.interval, hmod]
  · have hdue : (w.timer_info i).due = true ↔ r.interval ∣ ((w.ticks - t + 1 : ℕ) : ℤ) := by
      unfold TimerInfo.due
      rw [decide_eq_true_iff, h.elapse, h.entry.interval, hdvd]
      push_cast
      exact ⟨fun hc => hc.2, fun hc => ⟨hon, hc⟩⟩
    have htick : t + (w.ticks - t + 1) = w.ticks + 1 := by omega
    rw [hcalls, h.calls, hticks, hcount, schedule_succ, List.append_assoc, htick]
    unfold TimerInfo.callsAt
    rw [h.entry.arg, h.entry.timer_proc]
    simp only [hdue]

theorem Running.tick {r : Request} {i : Fin MAX_TIMER_CNT} {t : ℕ} {before : List Call}
    {w : Timers} (h : Running r i t before w) : Running r i t before (sig_func w) := by
  obtain ⟨hticks, hinfo, hcalls⟩ := sig_func_entry w i
  exact h.counted hticks hinfo hcalls

/-- Only deleting it ends the schedule of a timer. -/
theorem Running.step {r : Request} {i : Fin MAX_TIMER_CNT} {t : ℕ} {before : List Call}
    {w : Timers} (h : Running r i t before w) {e : Event} (he : e ≠ .del i) :
    Running r i t before (w.step e) := by
  rcases step_entry w e i with ⟨-, hstep⟩ | ⟨-, hticks, hcalls, hchanged⟩
  · rw [hstep]
    exact h.tick
  · have hsame : (w.step e).timer_info i = w.timer_info i := by
      rcases hchanged with hsame | ⟨-, hcause⟩ | ⟨r', -, -, hfree, -, -⟩
      · exact hsame
      · exact absurd (hcause h.entry.state) he
      · exact absurd h.entry.state hfree
    apply h.same hticks hsame
    unfold Timers.callsOf
    rw [hcalls]

/-- An entry that is off stays off, and silent, until a timer is set there. -/
theorem off_step {w : Timers} {i : Fin MAX_TIMER_CNT} (hoff : (w.timer_info i).state = 0)
    {e : Event} (he : ∀ r, e = .set r → (set_a_timer w r).2 ≠ i) :
    ((w.step e).timer_info i).state = 0 ∧ (w.step e).callsOf i = w.callsOf i := by
  rcases step_entry w e i with ⟨-, hstep⟩ | ⟨-, -, hcalls, hchanged⟩
  · obtain ⟨-, hinfo, hcalls⟩ := sig_func_entry w i
    rw [hstep, hinfo, hcalls]
    have htick : (w.timer_info i).tick = w.timer_info i := if_pos hoff
    have hsilent : (w.timer_info i).callsAt (w.ticks + 1) i = [] := by
      unfold TimerInfo.callsAt TimerInfo.due
      simp [hoff]
    rw [htick, hsilent]
    exact ⟨hoff, List.append_nil _⟩
  · refine ⟨?_, by unfold Timers.callsOf; rw [hcalls]⟩
    rcases hchanged with hsame | ⟨hs, -⟩ | ⟨r, hset, hi, -, -, -⟩
    · rw [hsame]
      exact hoff
    · exact hs
    · exact absurd hi (he r hset)

/-! ## The wheel -/

/-- What holds of the timers after every run. -/
structure Wheel (w : Timers) : Prop where
  elapse : ∀ i, (w.timer_info i).state = 1 →
    0 ≤ (w.timer_info i).elapse ∧ (w.timer_info i).elapse < (w.timer_info i).interval
  /-- A call fails for no other cause than these: no callback, an interval that is not positive, an
  argument that is too long, no entry that is free. -/
  accepts : ∀ r, (set_a_timer w r).2 ≠ -1 ↔ r.Valid ∧ ∃ i, (w.timer_info i).state ≠ 1
  /-- A timer that is set gets the handle of no other timer in use. Until it is deleted it is
  called on its schedule and not otherwise, and nobody else gets its handle. -/
  fires : ∀ r, (set_a_timer w r).2 ≠ -1 → ∃ i : Fin MAX_TIMER_CNT,
    (set_a_timer w r).2 = i ∧ (w.timer_info i).state ≠ 1 ∧
      ∀ post, (∀ e ∈ post, e ≠ .del i) →
        (run Timers.step (set_a_timer w r).1 post).callsOf i
          = w.callsOf i ++ schedule r i w.ticks (post.countP Event.isTick) ∧
        ((run Timers.step (set_a_timer w r).1 post).timer_info i).state = 1 ∧
        ∀ r', (set_a_timer (run Timers.step (set_a_timer w r).1 post) r').2 ≠ i
  /-- Once it is deleted there are no calls for its handle until a new timer gets it. -/
  deleted : ∀ (i : Fin MAX_TIMER_CNT) (post : List Event),
    Along Timers.step (fun w e => ∀ r, e = .set r → (set_a_timer w r).2 ≠ i)
        (del_a_timer w i).1 post →
      (run Timers.step (del_a_timer w i).1 post).callsOf i = w.callsOf i
  /-- A call that fails leaves the timers in use alone. -/
  failed : ∀ r, (set_a_timer w r).2 = -1 → ∀ i, (w.timer_info i).state = 1 →
    (set_a_timer w r).1.timer_info i = w.timer_info i

/-- The handle of a timer in use is not given away. -/
theorem set_ne_of_on {w : Timers} {i : Fin MAX_TIMER_CNT} (hon : (w.timer_info i).state = 1)
    (r : Request) : (set_a_timer w r).2 ≠ i := by
  rcases set_cases w r with hset | ⟨j, s, -, -, hset⟩ | ⟨j, s, hfree, -, -, hset⟩
  · rw [hset]
    dsimp only
    omega
  · rw [hset]
    dsimp only
    omega
  · rw [hset]
    dsimp only
    intro hji
    have heq : j = i := Fin.ext (by exact_mod_cast hji)
    exact hfree (heq ▸ hon)

theorem set_failed {w : Timers} {r : Request} (hr : (set_a_timer w r).2 = -1)
    {i : Fin MAX_TIMER_CNT} (hon : (w.timer_info i).state = 1) :
    (set_a_timer w r).1.timer_info i = w.timer_info i := by
  rcases set_cases w r with hset | ⟨j, s, hfree, -, hset⟩ | ⟨j, s, -, -, -, hset⟩
  · rw [hset]
  · rw [hset]
    apply put_other
    rintro rfl
    exact hfree hon
  · rw [hset] at hr
    dsimp only at hr
    omega

/-- A timer that has just been set. -/
theorem Running.start {r : Request} {i : Fin MAX_TIMER_CNT} {w : Timers}
    (hs : (w.timer_info i).SetFrom r) (helapse : (w.timer_info i).elapse = 0) :
    Running r i w.ticks (w.callsOf i) w := by
  refine ⟨hs, le_rfl, ?_, ?_⟩
  · rw [helapse, Nat.sub_self]
    exact (Int.zero_emod _).symm
  · rw [Nat.sub_self]
    exact (List.append_nil _).symm

/-- From the call on, the timer runs. -/
theorem set_running {w : Timers} {r : Request} (hr : (set_a_timer w r).2 ≠ -1) :
    ∃ i : Fin MAX_TIMER_CNT, (set_a_timer w r).2 = i ∧ (w.timer_info i).state ≠ 1 ∧
      Running r i w.ticks (w.callsOf i) (set_a_timer w r).1 := by
  rcases set_cases w r with hset | ⟨j, s, -, -, hset⟩ | ⟨j, s, hfree, hs, helapse, hset⟩
  · exact absurd (by rw [hset]) hr
  · exact absurd (by rw [hset]) hr
  · refine ⟨j, by rw [hset], hfree, ?_⟩
    have hinfo := put_self w j s
    have hrunning : Running r j (w.put j s).ticks ((w.put j s).callsOf j) (w.put j s) := by
      apply Running.start
      · rw [hinfo]
        exact hs
      · rw [hinfo]
        exact helapse
    rw [hset]
    exact hrunning

theorem Running.run {r : Request} {i : Fin MAX_TIMER_CNT} {t : ℕ} {before : List Call}
    {w : Timers} (h : Running r i t before w) {post : List Event} (hpost : ∀ e ∈ post, e ≠ .del i) :
    Running r i t before (run Timers.step w post) :=
  run_invariant_along (I := Running r i t before) (fun _ _ h he => h.step he) h
    (along_of_forall Timers.step w hpost)

theorem off_run {w : Timers} {i : Fin MAX_TIMER_CNT} (hoff : (w.timer_info i).state = 0)
    {post : List Event}
    (hpost : Along Timers.step (fun w e => ∀ r, e = .set r → (set_a_timer w r).2 ≠ i) w post) :
    (run Timers.step w post).callsOf i = w.callsOf i := by
  have hend := run_invariant_along
    (I := fun v : Timers => (v.timer_info i).state = 0 ∧ v.callsOf i = w.callsOf i)
    (fun v e h he => ⟨(off_step h.1 he).1, (off_step h.1 he).2.trans h.2⟩) ⟨hoff, rfl⟩ hpost
  exact hend.2

theorem wheel_of_sound {w : Timers} (h : ∀ i, (w.timer_info i).Sound) : Wheel w := by
  constructor
  case elapse =>
    intro i hon
    rcases h i with hoff | hsound
    · omega
    · exact hsound.2
  case accepts =>
    exact set_accepts_iff w
  case fires =>
    intro r hr
    obtain ⟨i, hi, hfree, hrunning⟩ := set_running hr
    refine ⟨i, hi, hfree, fun post hpost => ?_⟩
    have hend := hrunning.run hpost
    have hticks : (run Timers.step (set_a_timer w r).1 post).ticks - w.ticks
        = post.countP Event.isTick := by
      have hsame : (set_a_timer w r).1.ticks = w.ticks := step_ticks w (.set r)
      rw [run_ticks, hsame, Nat.add_sub_cancel_left]
    refine ⟨?_, hend.entry.state, fun r' => set_ne_of_on hend.entry.state r'⟩
    rw [hend.calls, hticks]
  case deleted =>
    intro i post hpost
    rw [del_handle] at hpost ⊢
    have hoff : ((w.put i .zero).timer_info i).state = 0 := by
      rw [put_self]
      rfl
    exact off_run hoff hpost
  case failed =>
    intro r hr i hon
    exact set_failed hr hon

/-- **The timer wheel keeps its schedule**, after every sequence of calls and ticks. -/
theorem timer_wheel_schedule (es : List Event) : Wheel (run Timers.step init_mul_timer es) := by
  apply wheel_of_sound
  exact run_invariant (I := fun w : Timers => ∀ i, (w.timer_info i).Sound) sound_step
    (fun _ => Or.inl rfl) es

/-- Two timers, of two and of three ticks; the first is deleted after four. -/
example : (run Timers.step init_mul_timer
    [.set ⟨2, some 7, some [65]⟩, .tick, .set ⟨3, some 8, none⟩, .tick, .tick, .tick, .del 0,
      .tick, .tick, .tick]).calls
    = [⟨2, 0, some 7, [65]⟩, ⟨4, 0, some 7, [65]⟩, ⟨4, 1, some 8, []⟩, ⟨7, 1, some 8, []⟩] := by
  decide +kernel

end TestCore.MulTimer
