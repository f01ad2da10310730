/-
One IPv4LL group: how it gets its address, and how it defends it (`ipv4ll-group.c`).

A group probes for an address, holds it once the probe is over (`ipv4llg_probed`), and hears of
conflicts (`ipv4llg_conflicted`). A conflict on the address it holds is answered with an ARP
announcement, unless the last answer is less than `DEFEND_INTERVAL` ago: then the address
is given up and another one picked. All of this is kept in `struct ipv4llg_state`, of which
`IPV4LLG_STATE_RUNNING` tells other parts of the program whether the group has an address.

The model is of the build for Linux: no `KERNEL_RFC5227`, no `IN_IFF_TENTATIVE`, and not the test
mode of the daemon. What the kernel and the network do comes with the events: what
`clock_gettime`, `random`, `arp_request` and the address lists say in a call.
-/
import TestCore.Ipv4llg.Claims
import TestCore.Lib.Run

set_option autoImplicit false

namespace TestCore.Ipv4llg

open TestCore.Lib

/-! ## Picking an address -/

/-- One round of the loop of `ipv4llg_pickaddr`: the address to try. There is none when the range
has the size 0, which is divided by. -/
def pickOnce (group : Ipv4llGroup) (r : ℕ) : Option (UInt32 × Ipv4llGroup) :=
  let top := group.range_end
  let bottom := group.range_begin
  let size := top - bottom
  if size = 0 then none
  else
    -- An `or`, not a sum: the address can lie outside of the range if the begin is not aligned.
    let addr := bottom ||| UInt32.ofNat (r % size.toNat)
    -- The preferred address is used once, and only for one try.
    if group.last_address ≠ 0 then some (group.last_address, { group with last_address := 0 })
    else some (addr, group)

/-- `ipv4llg_pickaddr`, with the values that `random` returns. It has no result when these do not
bring the loop to its end. The `continue` at a failed address goes to the test of the loop,
where every other address comes to as well. -/
def ipv4llg_pickaddr (failed : UInt32) (found : UInt32 → Bool) :
    List ℕ → Ipv4llGroup → Option (UInt32 × Ipv4llGroup)
  | [], _ => none
  | r :: rs, group =>
      match pickOnce group r with
      | none => none
      | some (addr, group) =>
          if addr = failed then
            if found addr then ipv4llg_pickaddr failed found rs group else some (addr, group)
          else if found addr then ipv4llg_pickaddr failed found rs group
          else some (addr, group)

/-! ## Time -/

def DEFEND_INTERVAL : ℕ := 10
def MAX_CONFLICTS : ℕ := 10
def RATE_LIMIT_INTERVAL : ℕ := 60
def PROBE_WAIT : ℕ := 1

/-- `struct timespec`. -/
structure Timespec where
  tv_sec : ℕ
  tv_nsec : ℕ
  tv_nsec_lt : tv_nsec < 1000000000
  deriving DecidableEq, Repr

/-- `timespecclear`. -/
def Timespec.zero : Timespec := ⟨0, 0, by norm_num⟩

/-- `timespeccmp(a, b, >)`. -/
def Timespec.gt (a b : Timespec) : Bool :=
  if a.tv_sec = b.tv_sec then b.tv_nsec < a.tv_nsec else b.tv_sec < a.tv_sec

/-- The time `defend` of the source, an interval of seconds later. -/
def Timespec.after (t : Timespec) (seconds : ℕ) : Timespec := { t with tv_sec := t.tv_sec + seconds }

/-- A time in nanoseconds. -/
def Timespec.nanos (t : Timespec) : ℕ := t.tv_sec * 1000000000 + t.tv_nsec

theorem Timespec.gt_iff (a b : Timespec) : a.gt b = true ↔ b.nanos < a.nanos := by
  have ha := a.tv_nsec_lt
  have hb := b.tv_nsec_lt
  unfold Timespec.gt Timespec.nanos
  split_ifs with h
  · rw [decide_eq_true_eq]
    omega
  · rw [decide_eq_true_eq]
    omega

theorem Timespec.nanos_after (t : Timespec) (seconds : ℕ) :
    (t.after seconds).nanos = t.nanos + seconds * 1000000000 := by
  unfold Timespec.after Timespec.nanos
  ring

/-! ## The state of a group -/

/-- `struct ipv4llg_state`, with the `arp_state` of the group. -/
structure Ipv4llgState where
  group : Ipv4llGroup
  /-- `state->addr->addr`. -/
  addr : Option UInt32 := none
  conflicts : UInt32 := 0
  defend : Timespec := Timespec.zero
  down : Bool := false
  /-- `astate->addr`. -/
  arpAddr : UInt32
  failed : UInt32 := 0
  /-- The seconds after which `ipv4llg_probe` is called, when it is to be. -/
  timer : Option ℕ := none
  deriving DecidableEq, Repr

def IPV4LLG_STATE_RUNNING (state : Ipv4llgState) : Prop := state.down = false ∧ state.addr ≠ none

/-- `ipv4llg_probed`. The address is there already, or `ipv4_addaddr` adds it; if it cannot, the
call returns early. -/
def ipv4llg_probed (state : Ipv4llgState) (ready : Bool) : Ipv4llgState :=
  if ready then { state with addr := some state.arpAddr, defend := Timespec.zero } else state

def ipv4llg_announced (state : Ipv4llgState) : Ipv4llgState := { state with conflicts := 0 }

/-- `ipv4llg_probe`, by the timer: `arp_probe` changes nothing here. -/
def ipv4llg_probe (state : Ipv4llgState) : Ipv4llgState := { state with timer := none }

structure ArpMsg where
  sip : UInt32
  tip : UInt32
  deriving DecidableEq, Repr

/-- A call of `ipv4llg_conflicted`, with what it is told while it runs. -/
structure Conflict where
  amsg : Option ArpMsg
  /-- `ipv4_iffindaddr(ifp, &amsg->tip, NULL) != NULL`. -/
  onIface : Bool
  now : Timespec
  /-- `arp_request` succeeds. -/
  sent : Bool
  /-- `ipv4_findaddr`. -/
  found : UInt32 → Bool
  random : List ℕ

/-- The first test of `ipv4llg_conflicted`. -/
def Conflict.hits (c : Conflict) (state : Ipv4llgState) : Bool :=
  match c.amsg with
  | none => true
  | some amsg =>
      amsg.sip = state.arpAddr ∨ amsg.sip = 0 ∧ amsg.tip = state.arpAddr ∧ c.onIface = false

/-- The end of `ipv4llg_conflicted`, from `arp_cancel` on. -/
def restart (state : Ipv4llgState) (c : Conflict) : Ipv4llgState :=
  let state := { state with conflicts := state.conflicts + 1, timer := none }
  match ipv4llg_pickaddr state.failed c.found c.random state.group with
  | some (addr, group) =>
      { state with
        arpAddr := addr
        group := group
        timer := some (if MAX_CONFLICTS ≤ state.conflicts.toNat then RATE_LIMIT_INTERVAL else PROBE_WAIT) }
  | none => state

/-- `ipv4llg_conflicted`: the state, and the address that is announced in defence. -/
def ipv4llg_conflicted (state : Ipv4llgState) (c : Conflict) : Ipv4llgState × Option UInt32 :=
  if c.hits state then
    let state := { state with failed := state.arpAddr }
    if state.addr = some state.failed then
      -- `defend` is zero before the first defence, so the clock itself is compared with the interval.
      if (state.defend.after DEFEND_INTERVAL).gt c.now then
        -- Nothing ever clears `down` again.
        (restart { state with down := true, addr := none } c, none)
      else if c.sent = false then (restart { state with down := true, addr := none } c, none)
      else ({ state with defend := c.now }, some state.failed)
    -- A conflict while probing: there is no address to give up.
    else (restart state c, none)
  else (state, none)

/-! ## Runs -/

inductive Event where
  | probed (ready : Bool)
  | announced
  | conflicted (c : Conflict)
  | expired

/-- A group, with what happened to it so far: whether it has an address that it acquired by
`ipv4llg_probed` and did not drop, and when it last defended this one. -/
structure Watched where
  state : Ipv4llgState
  acquired : Bool := false
  defence : Option Timespec := none

def Watched.step (w : Watched) : Event → Watched
  | .probed ready =>
      { state := ipv4llg_probed w.state ready
        acquired := ready || w.acquired
        defence := if ready then none else w.defence }
  | .announced => { w with state := ipv4llg_announced w.state }
  | .conflicted c =>
      let (state, announced) := ipv4llg_conflicted w.state c
      { state
        acquired := w.acquired && state.addr.isSome
        defence := if announced.isSome then some c.now else w.defence }
  | .expired => { w with state := ipv4llg_probe w.state }

/-- A group after `ipv4llg_start_one`, with the address that was picked. -/
def Watched.start (group : Ipv4llGroup) (arpAddr : UInt32) : Watched where
  state := { group, arpAddr }

/-! ## What is asked of a run -/

/-- `arp_request` succeeds. -/
def Event.Sent : Event → Prop
  | .conflicted c => c.sent = true
  | _ => True

/-- The group keeps its address, and announces it. -/
def Kept (state : Ipv4llgState) (c : Conflict) : Prop :=
  (ipv4llg_conflicted state c).1.addr = state.addr ∧ (ipv4llg_conflicted state c).2 = state.addr

/-- The group gives its address up, and is to probe for the one that is picked then. -/
def Dropped (state : Ipv4llgState) (c : Conflict) : Prop :=
  let (after, announced) := ipv4llg_conflicted state c
  after.addr = none ∧ announced = none ∧
    ∀ addr group, ipv4llg_pickaddr state.arpAddr c.found c.random state.group = some (addr, group) →
      after.arpAddr = addr ∧ after.timer.isSome

/-- A conflict is answered unless the last answer is less than the interval ago. -/
def DefenceLaw (w : Watched) : Event → Prop
  | .conflicted c =>
      c.hits w.state = true → w.state.addr ≠ none →
        match w.defence with
        | none => Kept w.state c
        | some d =>
            if d.nanos + DEFEND_INTERVAL * 1000000000 ≤ c.now.nanos then Kept w.state c
            else Dropped w.state c
  | _ => True

/-- The state of a group that has acquired an address, and did not drop it, is a running one. -/
def RunningLaw (w : Watched) : Prop := w.acquired = true → IPV4LLG_STATE_RUNNING w.state

/-- The two laws, in every step and every state of a run. -/
def Lawful (w : Watched) (es : List Event) : Prop :=
  Along Watched.step DefenceLaw w es ∧
    ∀ pre post, es = pre ++ post → RunningLaw (run Watched.step w pre)

/-- No address is acquired while `down` is set. -/
def UpAtProbe (w : Watched) : Event → Prop
  | .probed ready => ready = true → w.state.down = false
  | _ => True

/-- A conflict on an address that was not defended yet does not come before the clock has reached
the interval. -/
def FirstInTime (w : Watched) : Event → Prop
  | .conflicted c =>
      c.hits w.state = true → w.state.addr ≠ none → w.defence = none →
        DEFEND_INTERVAL * 1000000000 ≤ c.now.nanos
  | _ => True

/-! ## One step -/

/-- What the history says about the state. -/
structure Tracked (w : Watched) : Prop where
  acquired : w.acquired = w.state.addr.isSome
  defend : w.state.defend = w.defence.getD Timespec.zero
  arp : ∀ addr, w.state.addr = some addr → addr = w.state.arpAddr

theorem restart_addr (state : Ipv4llgState) (c : Conflict) : (restart state c).addr = state.addr := by
  unfold restart
  dsimp only
  split <;> rfl

theorem restart_defend (state : Ipv4llgState) (c : Conflict) :
    (restart state c).defend = state.defend := by
  unfold restart
  dsimp only
  split <;> rfl

theorem restart_picked {state : Ipv4llgState} {c : Conflict} {addr : UInt32} {group : Ipv4llGroup}
    (h : ipv4llg_pickaddr state.failed c.found c.random state.group = some (addr, group)) :
    (restart state c).arpAddr = addr ∧ (restart state c).timer.isSome = true := by
  unfold restart
  dsimp only
  rw [h]
  exact ⟨rfl, rfl⟩

/-- **What a conflict does**: nothing, or a defence, or a drop, or another pick while there is no
address to defend. -/
theorem conflicted_cases {state : Ipv4llgState}
    (harp : ∀ addr, state.addr = some addr → addr = state.arpAddr) {c : Conflict} (hsent : c.sent = true) :
    (c.hits state = false ∧ ipv4llg_conflicted state c = (state, none)) ∨
    (c.hits state = true ∧ state.addr = some state.arpAddr ∧
      (state.defend.nanos + DEFEND_INTERVAL * 1000000000 ≤ c.now.nanos ∧
        ipv4llg_conflicted state c
          = ({ state with failed := state.arpAddr, defend := c.now }, some state.arpAddr) ∨
      c.now.nanos < state.defend.nanos + DEFEND_INTERVAL * 1000000000 ∧
        ipv4llg_conflicted state c
          = (restart { state with failed := state.arpAddr, down := true, addr := none } c, none))) ∨
    (c.hits state = true ∧ state.addr = none ∧
      ipv4llg_conflicted state c = (restart { state with failed := state.arpAddr } c, none)) := by
  have hgt := Timespec.gt_iff (state.defend.after DEFEND_INTERVAL) c.now
  rw [Timespec.nanos_after] at hgt
  by_cases hhits : c.hits state = true
  · right
    by_cases haddr : state.addr = none
    · right
      refine ⟨hhits, haddr, ?_⟩
      unfold ipv4llg_conflicted
      rw [if_pos hhits]
      dsimp only
      rw [if_neg (by rw [haddr]; exact (Option.some_ne_none _).symm)]
    · left
      obtain ⟨addr, hsome⟩ := Option.ne_none_iff_exists'.mp haddr
      have hheld : state.addr = some state.arpAddr := by rw [hsome, harp addr hsome]
      refine ⟨hhits, hheld, ?_⟩
      unfold ipv4llg_conflicted
      rw [if_pos hhits]
      dsimp only
      rw [if_pos hheld]
      by_cases hsoon : c.now.nanos < state.defend.nanos + DEFEND_INTERVAL * 1000000000
      · right
        rw [if_pos (hgt.mpr hsoon)]
        exact ⟨hsoon, rfl⟩
      · left
        rw [if_neg (fun h => hsoon (hgt.mp h)), if_neg (by rw [hsent]; decide)]
        exact ⟨Nat.le_of_not_lt hsoon, rfl⟩
  · left
    refine ⟨Bool.eq_false_iff.mpr hhits, ?_⟩
    unfold ipv4llg_conflicted
    rw [if_neg hhits]

theorem tracked_start (group : Ipv4llGroup) (arpAddr : UInt32) : Tracked (Watched.start group arpAddr) := by
  refine ⟨rfl, rfl, ?_⟩
  intro addr h
  cases h

theorem Tracked.step {w : Watched} (h : Tracked w) {e : Event} (hsent : e.Sent) : Tracked (w.step e) := by
  obtain ⟨hacq, hdef, harp⟩ := h
  cases e with
  | probed ready =>
      cases ready with
      | false => exact ⟨hacq, hdef, harp⟩
      | true =>
          refine ⟨rfl, rfl, ?_⟩
          intro addr haddr
          exact (Option.some.inj haddr).symm
  | announced => exact ⟨hacq, hdef, harp⟩
  | expired => exact ⟨hacq, hdef, harp⟩
  | conflicted c =>
      rcases conflicted_cases harp hsent with ⟨-, heq⟩ | ⟨-, hheld, ⟨-, heq⟩ | ⟨-, heq⟩⟩ | ⟨-, hnone, heq⟩
      · unfold Watched.step
        dsimp only
        rw [heq]
        refine ⟨?_, hdef, harp⟩
        rw [hacq, Bool.and_self]
      · unfold Watched.step
        dsimp only
        rw [heq]
        refine ⟨?_, rfl, harp⟩
        dsimp only
        rw [hacq, Bool.and_self]
      · unfold Watched.step
        dsimp only
        rw [heq]
        refine ⟨?_, ?_, ?_⟩
        · dsimp only
          rw [restart_addr, Option.isSome_none, Bool.and_false]
        · rw [restart_defend]
          exact hdef
        · intro addr haddr
          dsimp only at haddr
          rw [restart_addr] at haddr
          cases haddr
      · unfold Watched.step
        dsimp only
        rw [heq]
        refine ⟨?_, ?_, ?_⟩
        · dsimp only
          rw [restart_addr, hnone, Option.isSome_none, Bool.and_false]
        · rw [restart_defend]
          exact hdef
        · intro addr haddr
          dsimp only at haddr
          rw [restart_addr, hnone] at haddr
          cases haddr

theorem kept_of_defended {state : Ipv4llgState} {c : Conflict} (hheld : state.addr = some state.arpAddr)
    (heq : ipv4llg_conflicted state c
      = ({ state with failed := state.arpAddr, defend := c.now }, some state.arpAddr)) : Kept state c := by
  unfold Kept
  rw [heq]
  exact ⟨rfl, hheld.symm⟩

theorem dropped_of_restart {state : Ipv4llgState} {c : Conflict}
    (heq : ipv4llg_conflicted state c
      = (restart { state with failed := state.arpAddr, down := true, addr := none } c, none)) :
    Dropped state c := by
  unfold Dropped
  rw [heq]
  refine ⟨restart_addr _ c, rfl, ?_⟩
  intro addr group hpick
  exact restart_picked hpick

theorem Dropped.not_kept {state : Ipv4llgState} {c : Conflict} (hheld : state.addr ≠ none)
    (h : Dropped state c) : ¬ Kept state c := by
  intro hkept
  exact hheld (hkept.1.symm.trans h.1)

/-- The law of the defence fails only at a first conflict that comes too early. -/
theorem defenceLaw_iff {w : Watched} (h : Tracked w) {e : Event} (hsent : e.Sent) :
    DefenceLaw w e ↔ FirstInTime w e := by
  cases e with
  | probed ready => exact Iff.rfl
  | announced => exact Iff.rfl
  | expired => exact Iff.rfl
  | conflicted c =>
      refine imp_congr_right fun hhits => imp_congr_right fun haddr => ?_
      have hcases : w.state.defend.nanos + DEFEND_INTERVAL * 1000000000 ≤ c.now.nanos ∧ Kept w.state c ∨
          c.now.nanos < w.state.defend.nanos + DEFEND_INTERVAL * 1000000000 ∧ Dropped w.state c := by
        rcases conflicted_cases h.arp hsent with ⟨hmiss, -⟩ | ⟨-, hheld, hdef | hdrop⟩ | ⟨-, hnone, -⟩
        · rw [hhits] at hmiss
          exact absurd hmiss (by decide)
        · exact Or.inl ⟨hdef.1, kept_of_defended hheld hdef.2⟩
        · exact Or.inr ⟨hdrop.1, dropped_of_restart hdrop.2⟩
        · exact absurd hnone haddr
      rw [h.defend] at hcases
      cases hdefence : w.defence with
      | none =>
          rw [hdefence, Option.getD_none, show Timespec.zero.nanos = 0 from rfl, Nat.zero_add] at hcases
          dsimp only
          rcases hcases with ⟨hle, hkept⟩ | ⟨hlt, hdrop⟩
          · exact ⟨fun _ _ => hle, fun _ => hkept⟩
          · refine ⟨fun hkept => absurd hkept (hdrop.not_kept haddr), fun hle => ?_⟩
            exact absurd (hle rfl) (Nat.not_le_of_lt hlt)
      | some d =>
          rw [hdefence, Option.getD_some] at hcases
          dsimp only
          refine ⟨fun _ hnone => absurd hnone (Option.some_ne_none d), fun _ => ?_⟩
          rcases hcases with ⟨hle, hkept⟩ | ⟨hlt, hdrop⟩
          · rw [if_pos hle]
            exact hkept
          · rw [if_neg (Nat.not_le_of_lt hlt)]
            exact hdrop

/-- A running state is left only by a probe that is over while `down` is set. -/
theorem runningLaw_step {w : Watched} (h : Tracked w) {e : Event} (hsent : e.Sent) (hrun : RunningLaw w) :
    RunningLaw (w.step e) ↔ UpAtProbe w e := by
  cases e with
  | announced => exact ⟨fun _ => trivial, fun _ => hrun⟩
  | expired => exact ⟨fun _ => trivial, fun _ => hrun⟩
  | probed ready =>
      cases ready with
      | false => exact ⟨fun _ hready => absurd hready (by decide), fun _ => hrun⟩
      | true =>
          constructor
          · intro hlaw _
            exact (hlaw rfl).1
          · intro hup _
            exact ⟨hup rfl, Option.some_ne_none _⟩
  | conflicted c =>
      refine ⟨fun _ => trivial, fun _ => ?_⟩
      rcases conflicted_cases h.arp hsent with ⟨-, heq⟩ | ⟨-, hheld, ⟨-, heq⟩ | ⟨-, heq⟩⟩ | ⟨-, hnone, heq⟩
      · unfold Watched.step
        dsimp only
        rw [heq]
        intro hacq
        exact hrun (Bool.and_eq_true_iff.mp hacq).1
      · unfold Watched.step
        dsimp only
        rw [heq]
        intro hacq
        exact hrun (Bool.and_eq_true_iff.mp hacq).1
      · unfold Watched.step
        dsimp only
        rw [heq]
        intro hacq
        dsimp only at hacq
        rw [restart_addr, Option.isSome_none, Bool.and_false] at hacq
        exact absurd hacq (by decide)
      · unfold Watched.step
        dsimp only
        rw [heq]
        intro hacq
        dsimp only at hacq
        rw [restart_addr, hnone, Option.isSome_none, Bool.and_false] at hacq
        exact absurd hacq (by decide)

/-! ## Whole runs -/

/-- **A group keeps to its laws in a run exactly when no address is acquired while `down` is set,
and no first conflict on an address comes in the first ten seconds of the clock.** -/
theorem lawful_iff (group : Ipv4llGroup) (arpAddr : UInt32) {es : List Event} (hsent : ∀ e ∈ es, e.Sent) :
    Lawful (Watched.start group arpAddr) es ↔
      Along Watched.step (fun w e => UpAtProbe w e ∧ FirstInTime w e) (Watched.start group arpAddr) es := by
  have htracked : Along Watched.step (fun w e => Tracked w ∧ e.Sent) (Watched.start group arpAddr) es :=
    (along_of_forall Watched.step _ hsent).with_invariant (fun w e h he => h.step he)
      (tracked_start group arpAddr)
  have hstart : RunningLaw (Watched.start group arpAddr) := by
    intro hacq
    cases hacq
  have hdefence := along_congr Watched.step (fun w e h => defenceLaw_iff h.1 h.2) htracked
  have hrunning := along_iff_states (fun w e h hrun => runningLaw_step h.1 h.2 hrun) htracked hstart
  unfold Lawful
  rw [hdefence, ← hrunning]
  constructor
  · rintro ⟨hfirst, hup⟩
    exact along_and Watched.step hup hfirst
  · intro hboth
    exact ⟨hboth.mono Watched.step fun w e h => h.2, hboth.mono Watched.step fun w e h => h.1⟩

/-- A group of a link-local range. -/
def linkLocal : Ipv4llGroup :=
  { id := bytes "ray", range_begin := 0xa9fe0100, range_end := 0xa9fefeff, network := 0xffff0000 }

/-- Another host claims 169.254.2.3. -/
def claimedAt (seconds : ℕ) : Event :=
  .conflicted
    { amsg := some ⟨0xa9fe0203, 0xa9fe0203⟩, onIface := true, now := ⟨seconds, 0, by norm_num⟩,
      sent := true, found := fun _ => false, random := [5] }

theorem lawful_iff_late_conflict :
    let es := [.probed true, claimedAt 20, claimedAt 31]
    (∀ e ∈ es, e.Sent) ∧ Lawful (Watched.start linkLocal 0xa9fe0203) es := by
  intro es
  have hsent : ∀ e ∈ es, e.Sent := by
    simp [es, Event.Sent, claimedAt]
  refine ⟨hsent, (lawful_iff linkLocal 0xa9fe0203 hsent).mpr ?_⟩
  refine ⟨⟨fun _ => rfl, trivial⟩, ⟨trivial, ?_⟩, ⟨trivial, ?_⟩, trivial⟩
  · intro _ _ _
    decide
  · intro _ _ _
    decide

/-- A conflict in the first seconds of the clock is not answered. And a group that has dropped an
address does not run with the next one. -/
theorem not_lawful_early_or_again :
    ¬ Lawful (Watched.start linkLocal 0xa9fe0203) [.probed true, claimedAt 3] ∧
    ¬ Lawful (Watched.start linkLocal 0xa9fe0203)
      [.probed true, claimedAt 20, claimedAt 25, .expired, .probed true] := by
  constructor
  · rintro ⟨hdefence, -⟩
    have hkept := hdefence.2.1 (by decide) (by decide)
    exact absurd hkept.1 (by decide)
  · rintro ⟨-, hrunning⟩
    have hrun := hrunning _ [] (List.append_nil _).symm (by decide)
    exact absurd hrun.1 (by decide)

end TestCore.Ipv4llg
