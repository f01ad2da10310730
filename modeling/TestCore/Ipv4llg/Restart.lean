/-
The claims file over many runs of the daemon: several groups, one file (`ipv4ll-group.c`).

Each time a group acquires an address the whole file is written anew, with a line for every
group that holds an address at this moment. At the next start the lines become the preferred
addresses, and a preferred address is used up by the first pick. So a group that is
probing has no trace of its address but the line in the file, and the file is rewritten when
another group is through with its probe: the address is lost, unless its own probe ends before
the daemon does.

`Daemon.acquired` is the history: the address that each group acquired last, in any run. The
calls of the file system succeed.
-/
import TestCore.Ipv4llg.Defend

set_option autoImplicit false

namespace TestCore.Ipv4llg

open TestCore.Lib

/-! ## The daemon -/

/-- One interface with `n` groups. -/
structure Daemon (n : ℕ) where
  state : Fin n → Ipv4llgState
  /-- `state->arp != NULL`. -/
  started : Fin n → Bool
  file : Bytes
  acquired : Fin n → Option UInt32

inductive DaemonEvent (n : ℕ) where
  /-- The daemon ends, if it runs, and starts: `ipv4llg_start`, up to the groups. -/
  | start
  /-- `ipv4llg_start_one`, with the addresses of the interface. -/
  | startOne (i : Fin n) (addrs : List UInt32) (ready : Bool) (found : UInt32 → Bool) (random : List ℕ)
  | probed (i : Fin n) (ready : Bool)
  | announced (i : Fin n)
  | conflicted (i : Fin n) (c : Conflict)
  | expired (i : Fin n)

section Daemon

variable {n : ℕ}

/-- What `ipv4llg_writeclaims` is called with. -/
def Daemon.held (d : Daemon n) : List (Ipv4llGroup × Option UInt32) :=
  List.ofFn fun i => ((d.state i).group, (d.state i).addr)

def Daemon.setState (d : Daemon n) (i : Fin n) (state : Ipv4llgState) : Daemon n :=
  { d with state := Function.update d.state i state }

@[simp] theorem Daemon.setState_self (d : Daemon n) (i : Fin n) (state : Ipv4llgState) :
    (d.setState i state).state i = state := Function.update_self _ _ _

theorem Daemon.setState_of_ne (d : Daemon n) {i j : Fin n} (h : j ≠ i) (state : Ipv4llgState) :
    (d.setState i state).state j = d.state j := Function.update_of_ne h _ _

/-- `ipv4llg_probed`, with the file that it writes. -/
def Daemon.probed (d : Daemon n) (i : Fin n) (ready : Bool) : Daemon n :=
  if ready then
    let d := d.setState i (ipv4llg_probed (d.state i) ready)
    { d with
      -- The file is written anew, with the groups that hold an address now and no others.
      file := ipv4llg_writeclaims d.held
      acquired := Function.update d.acquired i (d.state i).addr }
  else d

/-- `IN_LINKLOCAL_GROUP`. -/
def IN_LINKLOCAL_GROUP (addr : UInt32) (group : Ipv4llGroup) : Bool :=
  group.range_begin ≤ addr ∧ addr ≤ group.range_end

/-- `ipv4llg_start_one`: with an address that the interface has already, or with one that is picked. -/
def Daemon.ipv4llg_start_one (d : Daemon n) (i : Fin n) (addrs : List UInt32) (ready : Bool)
    (found : UInt32 → Bool) (random : List ℕ) : Daemon n :=
  if d.started i then d
  else
    let d := { d with started := Function.update d.started i true }
    let state := d.state i
    -- An address that the interface has already is taken over without a probe.
    match addrs.find? fun addr => IN_LINKLOCAL_GROUP addr state.group with
    | some ia => (d.setState i { state with arpAddr := ia }).probed i ready
    | none =>
        match ipv4llg_pickaddr state.failed found random state.group with
        -- The pick uses the preferred address up; from here on it is in the file only.
        | some (addr, group) => d.setState i { state with arpAddr := addr, group := group }
        | none => d

variable (cfg : Fin n → Ipv4llGroup)

/-- `ipv4llg_start`: new states, and preferred addresses from the file. -/
def Daemon.ipv4llg_start (d : Daemon n) : Daemon n :=
  let groups := ipv4llg_start_claims (List.ofFn fun i => { cfg i with last_address := 0 }) d.file
  { d with
    state := fun i => { group := groups.getD i (cfg i), arpAddr := 0 }
    started := fun _ => false }

/-- The callbacks of the `arp_state` come only once this is there. -/
def Daemon.step (d : Daemon n) : DaemonEvent n → Daemon n
  | .start => d.ipv4llg_start cfg
  | .startOne i addrs ready found random => d.ipv4llg_start_one i addrs ready found random
  | .probed i ready => if d.started i then d.probed i ready else d
  | .announced i => if d.started i then d.setState i (ipv4llg_announced (d.state i)) else d
  | .conflicted i c => if d.started i then d.setState i (ipv4llg_conflicted (d.state i) c).1 else d
  | .expired i => if d.started i then d.setState i (ipv4llg_probe (d.state i)) else d

/-- Before the first run, with any file. -/
def Daemon.init (file : Bytes) : Daemon n where
  state := fun i => { group := cfg i, arpAddr := 0 }
  started := fun _ => false
  file := file
  acquired := fun _ => none

/-! ## What is asked of a run -/

/-- If the daemon started now, every group that has ever acquired an address would prefer the
one it acquired last. -/
def Survives (d : Daemon n) : Prop :=
  ∀ i addr, d.acquired i = some addr → ((d.ipv4llg_start cfg).state i).group.last_address = addr

/-- All the groups but one that have ever acquired an address hold one. (A group whose address is
0.0.0.0 is not told from one that has none.) -/
def OthersHold (d : Daemon n) (i : Fin n) : Prop :=
  ∀ j, j ≠ i → ∀ addr, addr ≠ 0 → d.acquired j = some addr → (d.state j).addr ≠ none

/-- When an address is acquired, the other groups that have ever acquired one hold one. -/
def NoneProbing (d : Daemon n) : DaemonEvent n → Prop
  | .startOne i addrs ready _ _ =>
      d.started i = false → ready = true →
        (addrs.find? fun addr => IN_LINKLOCAL_GROUP addr (d.state i).group) ≠ none → OthersHold d i
  | .probed i ready => d.started i = true → ready = true → OthersHold d i
  | _ => True

/-! ## The file and the states -/

/-- A group, but for its preferred address. -/
def Ipv4llGroup.config (group : Ipv4llGroup) : Ipv4llGroup := { group with last_address := 0 }

/-- What a state may become in a step without an acquisition. -/
structure Follows (new old : Ipv4llgState) : Prop where
  config : new.group.config = old.group.config
  addr : ∀ addr, new.addr = some addr → old.addr = some addr

/-- The states have the groups that are configured, and no address but the one acquired last. -/
structure Known (d : Daemon n) : Prop where
  config : ∀ i, (d.state i).group.config = (cfg i).config
  addr : ∀ i addr, (d.state i).addr = some addr → d.acquired i = some addr

/-! ### What the callbacks leave as it is -/

theorem pickaddr_config {failed : UInt32} {found : UInt32 → Bool} {random : List ℕ} {group : Ipv4llGroup}
    {addr : UInt32} {group' : Ipv4llGroup}
    (h : ipv4llg_pickaddr failed found random group = some (addr, group')) :
    group'.config = group.config := by
  have honce : ∀ {r : ℕ} {g : Ipv4llGroup} {x : UInt32 × Ipv4llGroup}, pickOnce g r = some x →
      x.2.config = g.config := by
    intro r g x hx
    unfold pickOnce at hx
    dsimp only at hx
    split_ifs at hx
    · cases hx
      rfl
    · cases hx
      rfl
  induction random generalizing group with
  | nil => cases h
  | cons r rs ih =>
      unfold ipv4llg_pickaddr at h
      cases hpick : pickOnce group r with
      | none =>
          rw [hpick] at h
          cases h
      | some x =>
          rw [hpick] at h
          dsimp only at h
          have hx : x.2.config = group.config := honce hpick
          split_ifs at h
          · exact (ih h).trans hx
          · cases h
            exact hx
          · exact (ih h).trans hx
          · cases h
            exact hx

theorem Follows.refl (state : Ipv4llgState) : Follows state state := ⟨rfl, fun _ h => h⟩

theorem follows_restart {state old : Ipv4llgState} (h : Follows state old) (c : Conflict) :
    Follows (restart state c) old := by
  refine ⟨?_, ?_⟩
  · unfold restart
    dsimp only
    split
    · rename_i addr group hpick
      exact (pickaddr_config hpick).trans h.config
    · exact h.config
  · intro addr haddr
    rw [restart_addr] at haddr
    exact h.addr addr haddr

theorem follows_conflicted (state : Ipv4llgState) (c : Conflict) :
    Follows (ipv4llg_conflicted state c).1 state := by
  have hdrop : Follows { state with failed := state.arpAddr, down := true, addr := none } state := by
    refine ⟨rfl, ?_⟩
    intro addr haddr
    cases haddr
  have hfailed : Follows { state with failed := state.arpAddr } state := ⟨rfl, fun _ h => h⟩
  unfold ipv4llg_conflicted
  dsimp only
  split_ifs
  · exact follows_restart hdrop c
  · exact follows_restart hdrop c
  · exact ⟨rfl, fun _ h => h⟩
  · exact follows_restart hfailed c
  · exact Follows.refl state

/-! ### What reading the file leaves as it is -/

theorem readClaim_config (read : ℕ) (line : Bytes) (group : Ipv4llGroup) :
    (readClaim read line group).2.config = group.config := by
  unfold readClaim
  dsimp only
  split_ifs
  · split <;> rfl
  · rfl

theorem read_saved_claim_config (read : ℕ) (line : Bytes) (groups : List Ipv4llGroup) :
    (ipv4llg_read_saved_claim read line groups).map Ipv4llGroup.config
      = groups.map Ipv4llGroup.config := by
  induction groups generalizing line with
  | nil => rfl
  | cons group groups ih =>
      unfold ipv4llg_read_saved_claim
      dsimp only
      rw [List.map_cons, List.map_cons, ih, readClaim_config]

theorem start_claims_config (groups : List Ipv4llGroup) (file : Bytes) :
    (ipv4llg_start_claims groups file).map Ipv4llGroup.config = groups.map Ipv4llGroup.config := by
  unfold ipv4llg_start_claims
  induction lines file generalizing groups with
  | nil => rfl
  | cons line ls ih => rw [List.foldl_cons, ih, read_saved_claim_config]

/-- The file depends on the configuration of the groups only. -/
theorem writeclaims_congr {group group' : Fin n → Ipv4llGroup}
    (h : ∀ i, (group i).config = (group' i).config) (addr : Fin n → Option UInt32) :
    ipv4llg_writeclaims (List.ofFn fun i => (group i, addr i))
      = ipv4llg_writeclaims (List.ofFn fun i => (group' i, addr i)) := by
  have hconfig : ∀ held : List (Ipv4llGroup × Option UInt32),
      ipv4llg_writeclaims (held.map fun x => (x.1.config, x.2)) = ipv4llg_writeclaims held := by
    intro held
    unfold ipv4llg_writeclaims
    rw [List.flatMap_map]
    rfl
  rw [← hconfig, ← hconfig (List.ofFn fun i => (group' i, addr i)), List.map_ofFn, List.map_ofFn]
  congr 2
  funext i
  exact Prod.ext (h i) rfl

/-- What a group prefers after a start with the file of some states: the address it held. -/
theorem start_written (d : Daemon n) (addr : Fin n → Option UInt32) {cfg : Fin n → Ipv4llGroup}
    (hcfg : Configured (List.ofFn cfg)) {group : Fin n → Ipv4llGroup}
    (hgroup : ∀ i, (group i).config = (cfg i).config)
    (hfile : d.file = ipv4llg_writeclaims (List.ofFn fun i => (group i, addr i))) (i : Fin n) :
    ((d.ipv4llg_start cfg).state i).group.last_address = (addr i).getD 0 := by
  have hheld : (List.ofFn fun i => (cfg i, addr i)).map Prod.fst = List.ofFn cfg := by
    rw [List.map_ofFn]
    rfl
  rw [← hheld] at hcfg
  have hread := start_claims_of_lines hcfg (mem_lines_writeclaims hcfg)
  rw [writeclaims_congr hgroup] at hfile
  unfold withLast at hread
  rw [List.map_ofFn, List.map_ofFn, ← hfile] at hread
  unfold Daemon.ipv4llg_start
  dsimp only
  rw [List.getD_eq_getElem?_getD]
  change (((ipv4llg_start_claims (List.ofFn ((fun x : Ipv4llGroup × Option UInt32 =>
    { x.1 with last_address := 0 }) ∘ fun i => (cfg i, addr i))) d.file)[i.val]?).getD (cfg i)).last_address
      = (addr i).getD 0
  rw [hread, List.getElem?_ofFn, dif_pos i.isLt, Option.getD_some]
  rfl

/-! ### Steps -/

variable {cfg} {d : Daemon n}

theorem Known.setState (h : Known cfg d) {i : Fin n} {state : Ipv4llgState}
    (hstate : Follows state (d.state i)) : Known cfg (d.setState i state) := by
  refine ⟨?_, ?_⟩
  · intro j
    rcases eq_or_ne j i with rfl | hj
    · rw [d.setState_self, hstate.config]
      exact h.config j
    · rw [d.setState_of_ne hj]
      exact h.config j
  · intro j addr haddr
    rcases eq_or_ne j i with rfl | hj
    · rw [d.setState_self] at haddr
      exact h.addr j addr (hstate.addr addr haddr)
    · rw [d.setState_of_ne hj] at haddr
      exact h.addr j addr haddr

theorem Known.probed (h : Known cfg d) (i : Fin n) (ready : Bool) : Known cfg (d.probed i ready) := by
  cases ready with
  | false => exact h
  | true =>
      have hself : (d.probed i true).state i = ipv4llg_probed (d.state i) true := d.setState_self i _
      have hother : ∀ j, j ≠ i → (d.probed i true).state j = d.state j := fun j hj => d.setState_of_ne hj _
      refine ⟨?_, ?_⟩
      · intro j
        rcases eq_or_ne j i with rfl | hj
        · rw [hself]
          exact h.config j
        · rw [hother j hj]
          exact h.config j
      · intro j addr haddr
        change Function.update d.acquired i ((d.probed i true).state i).addr j = some addr
        rcases eq_or_ne j i with rfl | hj
        · rw [Function.update_self]
          exact haddr
        · rw [Function.update_of_ne hj]
          rw [hother j hj] at haddr
          exact h.addr j addr haddr

/-- **After an acquisition the file has all the addresses exactly if the other groups hold
theirs.** -/
theorem survives_probed (hcfg : Configured (List.ofFn cfg)) (h : Known cfg d) (i : Fin n) :
    Survives cfg (d.probed i true) ↔ OthersHold d i := by
  have hother : ∀ j, j ≠ i → (d.probed i true).state j = d.state j := fun j hj => d.setState_of_ne hj _
  have hacq : (d.probed i true).acquired
      = Function.update d.acquired i ((d.probed i true).state i).addr := rfl
  have hprefers : ∀ j, (((d.probed i true).ipv4llg_start cfg).state j).group.last_address
      = ((d.probed i true).state j).addr.getD 0 := by
    intro j
    exact start_written (d.probed i true) (fun j => ((d.probed i true).state j).addr) hcfg
      (h.probed i true).config rfl j
  constructor
  · intro hsurvives j hj addr haddr hlast hnone
    have hlost := hsurvives j addr (by rw [hacq, Function.update_of_ne hj]; exact hlast)
    rw [hprefers, hother j hj, hnone, Option.getD_none] at hlost
    exact haddr hlost.symm
  · intro hothers j addr hlast
    rw [hprefers]
    rcases eq_or_ne j i with rfl | hj
    · rw [hacq, Function.update_self] at hlast
      rw [hlast, Option.getD_some]
    · rw [hacq, Function.update_of_ne hj] at hlast
      rw [hother j hj]
      cases hheld : (d.state j).addr with
      | some held =>
          have hsame := h.addr j held hheld
          rw [hlast] at hsame
          exact (Option.some.inj hsame).symm
      | none =>
          by_contra hne
          exact hothers j hj addr (fun hzero => hne hzero.symm) hlast hheld

theorem known_start (d : Daemon n) : Known cfg (d.ipv4llg_start cfg) := by
  refine ⟨?_, ?_⟩
  · intro i
    have hgroups := start_claims_config (List.ofFn fun i => (cfg i).config) d.file
    have hget := congrArg (fun l => l[i.val]?) hgroups
    simp only [List.map_ofFn, List.getElem?_map, List.getElem?_ofFn, i.isLt, dif_pos] at hget
    obtain ⟨group, hgroup, hconfig⟩ := Option.map_eq_some_iff.mp hget
    have hstate : ((d.ipv4llg_start cfg).state i).group = group := by
      unfold Daemon.ipv4llg_start
      dsimp only
      rw [List.getD_eq_getElem?_getD]
      change ((ipv4llg_start_claims (List.ofFn fun i => (cfg i).config) d.file)[i.val]?).getD (cfg i) = group
      rw [hgroup, Option.getD_some]
    rw [hstate, hconfig]
    rfl
  · intro i addr haddr
    cases haddr

/-- A step without an acquisition leaves the file as it is. -/
theorem survives_of_file {d' : Daemon n} (hfile : d'.file = d.file) (hacq : d'.acquired = d.acquired)
    (hs : Survives cfg d) : Survives cfg d' := by
  intro j addr hlast
  rw [hacq] at hlast
  have hprefers := hs j addr hlast
  unfold Daemon.ipv4llg_start at hprefers ⊢
  rw [hfile]
  exact hprefers

/-- `ipv4llg_start_one` acquires an address only if the interface has one already. -/
theorem Known.start_one (hcfg : Configured (List.ofFn cfg)) (h : Known cfg d) (i : Fin n)
    (addrs : List UInt32) (ready : Bool) (found : UInt32 → Bool) (random : List ℕ) :
    Known cfg (d.ipv4llg_start_one i addrs ready found random) ∧
      (Survives cfg d → (Survives cfg (d.ipv4llg_start_one i addrs ready found random) ↔
        NoneProbing d (.startOne i addrs ready found random))) := by
  unfold Daemon.ipv4llg_start_one NoneProbing
  dsimp only
  split_ifs with hstarted
  · refine ⟨h, fun hs => ⟨fun _ hstart => ?_, fun _ => hs⟩⟩
    rw [hstarted] at hstart
    exact absurd hstart (by decide)
  · have hd : Known cfg { d with started := Function.update d.started i true } := ⟨h.config, h.addr⟩
    split
    · rename_i ia hia
      have hfollows : Follows { d.state i with arpAddr := ia } (d.state i) :=
        ⟨rfl, fun _ haddr => haddr⟩
      have hset := hd.setState hfollows
      refine ⟨hset.probed i ready, fun hs => ?_⟩
      cases ready with
      | false => exact ⟨fun _ _ hready => absurd hready (by decide), fun _ => hs⟩
      | true =>
          rw [survives_probed hcfg hset i, hia]
          constructor
          · intro hothers _ _ _ j hj addr haddr hlast
            have hhold := hothers j hj addr haddr hlast
            rwa [Daemon.setState_of_ne _ hj] at hhold
          · intro hothers j hj addr haddr hlast
            rw [Daemon.setState_of_ne _ hj]
            exact hothers (Bool.eq_false_iff.mpr hstarted) rfl (Option.some_ne_none ia) j hj addr haddr hlast
    · rename_i hia
      split
      · rename_i addr group hpick
        refine ⟨hd.setState ⟨pickaddr_config hpick, fun _ haddr => haddr⟩, fun hs => ?_⟩
        exact ⟨fun _ _ _ hne => absurd hia hne, fun _ => survives_of_file rfl rfl hs⟩
      · exact ⟨hd, fun hs => ⟨fun _ _ _ hne => absurd hia hne, fun _ => survives_of_file rfl rfl hs⟩⟩

theorem Known.callback (h : Known cfg d) {i : Fin n} {state : Ipv4llgState}
    (hstate : Follows state (d.state i)) :
    Known cfg (if d.started i then d.setState i state else d) ∧
      (Survives cfg d → (Survives cfg (if d.started i then d.setState i state else d) ↔ True)) := by
  split_ifs
  · exact ⟨h.setState hstate, fun hs => ⟨fun _ => trivial, fun _ => survives_of_file rfl rfl hs⟩⟩
  · exact ⟨h, fun hs => ⟨fun _ => trivial, fun _ => hs⟩⟩

/-- **The addresses survive a step exactly when it meets the condition.** -/
theorem Known.step (hcfg : Configured (List.ofFn cfg)) (h : Known cfg d) (e : DaemonEvent n) :
    Known cfg (d.step cfg e) ∧
      (Survives cfg d → (Survives cfg (d.step cfg e) ↔ NoneProbing d e)) := by
  cases e with
  | start => exact ⟨known_start d, fun hs => ⟨fun _ => trivial, fun _ => survives_of_file rfl rfl hs⟩⟩
  | startOne i addrs ready found random => exact h.start_one hcfg i addrs ready found random
  | announced i => exact h.callback ⟨rfl, fun _ haddr => haddr⟩
  | conflicted i c => exact h.callback (follows_conflicted _ c)
  | expired i => exact h.callback ⟨rfl, fun _ haddr => haddr⟩
  | probed i ready =>
      unfold Daemon.step NoneProbing
      dsimp only
      split_ifs with hstarted
      · refine ⟨h.probed i ready, fun hs => ?_⟩
        cases ready with
        | false => exact ⟨fun _ _ hready => absurd hready (by decide), fun _ => hs⟩
        | true =>
            rw [survives_probed hcfg h i]
            exact ⟨fun hothers _ _ => hothers, fun hothers => hothers hstarted rfl⟩
      · exact ⟨h, fun hs => ⟨fun _ hstart => absurd hstart hstarted, fun _ => hs⟩⟩

theorem known_init (file : Bytes) : Known cfg (Daemon.init cfg file) := by
  refine ⟨fun _ => rfl, ?_⟩
  intro i addr haddr
  cases haddr

variable (cfg)

/-- Two groups of one range. -/
def twoGroups : Fin 2 → Ipv4llGroup :=
  ![{ id := bytes "legacy", range_begin := 0xa9fe0100, range_end := 0xa9fefeff, network := 0xffff0000 },
    { id := bytes "ray", range_begin := 0xa9fe0100, range_end := 0xa9fefeff, network := 0xffff0000 }]

/-- A group starts with a pick. -/
def startPicking (i : Fin 2) : DaemonEvent 2 := .startOne i [] true (fun _ => false) [5 + i]

end Daemon

end TestCore.Ipv4llg
