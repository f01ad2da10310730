/-
Requests to the core application: `webs_creat_q_and_put_q` and `jrd_sock_tx_thread` of
`sock_clt.c`.

Any thread may put a message on `jrd_sock_tx_q`; one thread takes them off and passes them to
`client_send_async_msg`. Both work on the queue under `jrd_sock_tx_mute`, and what they do
there is one step. Everything the transmit thread does between two such sections is one step
too, since it touches nothing that others do.

A message is in one of three places: sent, in the hand of the thread, or queued. The three
together, in this order, are at all times the messages that were put (`TxHolds`). As every put
signals, the thread never waits while something is queued, so whatever else happens two of its
steps send one more message (`tx_countdown`).

The thread gives up when it gets no memory for `temp_buf`: it returns, with a message in its
hand.
-/
import TestCore.Lib.CString
import TestCore.Lib.Run
import TestCore.Webs.Queue

set_option autoImplicit false

namespace TestCore.Webs

open TestCore.Lib

/-! ## The threads -/

/-- A `jrd_sock_msg_q_t` with its `jrd_sock_msg_t`. -/
structure TxMsg where
  sock_fd : ℤ
  msg_type : ℤ
  usr_p : ℕ
  data_len : ℕ
  data_buf : Bytes
  deriving DecidableEq, Repr

/-- Where the transmit thread is. -/
inductive TxPhase where
  /-- It wants the mutex, to look at the queue. -/
  | ready
  /-- In `pthread_cond_wait`. -/
  | waiting
  | sending (p : Link)
  /-- It has returned, and never freed `p`. -/
  | ended (p : Link)
  deriving DecidableEq, Repr

/-- What the thread has taken off the queue and not freed. -/
def TxPhase.hand : TxPhase → List Link
  | .ready => []
  | .waiting => []
  | .sending p => [p]
  | .ended p => [p]

/-- Threads, queue and memory; `sent` are the calls of `client_send_async_msg`, and `puts` the
messages of the calls of `webs_creat_q_and_put_q` that returned 0. -/
structure TxWorld where
  mem : QMem
  item : Link → TxMsg
  phase : TxPhase
  sent : List (ℤ × Bytes)
  puts : List TxMsg

/-- A call of `webs_creat_q_and_put_q`: `wp->sock_fd`, if `wp` is not `NULL`, and the rest of
its arguments. -/
structure TxRequest where
  wp : Option ℤ
  msg_type : ℤ
  usr_p : ℕ
  data_len : ℕ
  data_buf : Bytes
  deriving DecidableEq, Repr

inductive TxEvent where
  /-- `link` is where the first `malloc` puts the item, and `NULL` if one of the two fails. -/
  | put (link : Link) (r : TxRequest)
  | spurious
  /-- The next step of the transmit thread, and whether a `malloc` there succeeds. -/
  | tx (malloc : Bool)
  deriving DecidableEq, Repr

section Tx

/- What is fixed: the layout of `jrd_sock_hdr_t`, which comes from outside, as the bytes of one
that has a type and a `usr_p` and is zero otherwise; where `jrd_sock_tx_q` is; and
`local_fd`. -/
variable (hdr : ℤ → ℕ → Bytes) (q : Link) (local_fd : ℤ)

/-- What is passed to `client_send_async_msg`: the socket, and `temp_buf`. -/
def TxMsg.wire (m : TxMsg) : ℤ × Bytes :=
  (m.sock_fd, hdr m.msg_type m.usr_p ++ m.data_buf.take m.data_len)

def TxRequest.msg (r : TxRequest) : TxMsg :=
  ⟨r.wp.getD local_fd, r.msg_type, r.usr_p, r.data_len, r.data_buf⟩

/-- The thread is woken, if it waits. -/
def TxPhase.wake (phase : TxPhase) : TxPhase :=
  if phase = .waiting then .ready else phase

def webs_creat_q_and_put_q (s : TxWorld) (link : Link) (r : TxRequest) : TxWorld × ℤ :=
  if link = NULL then (s, -1)
  else
    ({ s with
        mem := q_put (q_link s.mem link) q link
        item := Function.update s.item link (r.msg local_fd)
        phase := s.phase.wake
        puts := s.puts ++ [r.msg local_fd] }, 0)

/-- One step of `jrd_sock_tx_thread`. -/
def jrd_sock_tx_thread (s : TxWorld) (malloc : Bool) : TxWorld :=
  match s.phase with
  | .ready =>
      let r := q_get s.mem q
      { s with mem := r.1, phase := if r.2 = NULL then .waiting else .sending r.2 }
  | .waiting => s
  | .sending p =>
      if malloc then { s with sent := s.sent ++ [(s.item p).wire hdr], phase := .ready }
      else { s with phase := .ended p }
  | .ended _ => s

def TxWorld.step (s : TxWorld) : TxEvent → TxWorld
  | .put link r => (webs_creat_q_and_put_q q local_fd s link r).1
  | .spurious => { s with phase := s.phase.wake }
  | .tx malloc => jrd_sock_tx_thread hdr q s malloc

/-- After `q_init`, with whatever is in memory. -/
def TxWorld.init (mem : QMem) (item : Link → TxMsg) : TxWorld :=
  ⟨q_init mem q, item, .ready, [], []⟩

/-- The links on the queue. -/
def TxWorld.queued (s : TxWorld) : List Link :=
  nodesFrom s.mem.next_ptr s.mem.cnt.toNat (s.mem.next_ptr q)

/-- `malloc` gives a block that is not in use. -/
def TxFresh (s : TxWorld) : TxEvent → Prop
  | .put link _ => link ≠ NULL → link ≠ q ∧ link ∉ s.phase.hand ++ s.queued q
  | _ => True

instance (s : TxWorld) (e : TxEvent) : Decidable (TxFresh q s e) :=
  match e with
  | .put link _ => inferInstanceAs (Decidable
      (link ≠ NULL → link ≠ q ∧ link ∉ s.phase.hand ++ s.queued q))
  | .spurious => isTrue trivial
  | .tx _ => isTrue trivial

/-- Something is queued, and the thread waits: nobody will wake it. -/
def TxStuck (s : TxWorld) : Prop := s.mem.cnt ≠ 0 ∧ s.phase = .waiting

/-! ## One step -/

/-- The queue holds `l`; what was sent, what is in the hand and what is queued is what was put;
and the thread waits only for an empty queue. -/
structure TxHolds (s : TxWorld) (l : List Link) : Prop where
  rep : QRep s.mem q l
  order : s.sent ++ (s.phase.hand ++ l).map (fun p => (s.item p).wire hdr)
    = s.puts.map (TxMsg.wire hdr)
  awake : s.phase = .waiting → l = []

theorem wake_hand (phase : TxPhase) : phase.wake.hand = phase.hand := by
  unfold TxPhase.wake
  split_ifs with hwait
  · rw [hwait]
    rfl
  · rfl

theorem wake_ne_waiting (phase : TxPhase) : phase.wake ≠ .waiting := by
  unfold TxPhase.wake
  split_ifs with hwait
  · exact nofun
  · exact hwait

variable {hdr q}

theorem TxHolds.queued {s : TxWorld} {l : List Link} (h : TxHolds hdr q s l) :
    s.queued q = l := by
  unfold TxWorld.queued
  rw [h.rep.cnt, Int.toNat_natCast, h.rep.forth.2.nodesFrom]

theorem TxHolds.not_stuck {s : TxWorld} {l : List Link} (h : TxHolds hdr q s l) : ¬ TxStuck s := by
  rintro ⟨hcnt, hwait⟩
  apply hcnt
  rw [h.rep.cnt, h.awake hwait]
  rfl

theorem TxHolds.spurious {s : TxWorld} {l : List Link} (h : TxHolds hdr q s l) :
    TxHolds hdr q { s with phase := s.phase.wake } l := by
  refine ⟨h.rep, ?_, fun hwait => absurd hwait (wake_ne_waiting s.phase)⟩
  dsimp only
  rw [wake_hand]
  exact h.order

/-- A put adds the message at the end, and wakes the thread. -/
theorem TxHolds.put {s : TxWorld} {l : List Link} (h : TxHolds hdr q s l) {link : Link}
    {r : TxRequest} (hfresh : TxFresh q s (.put link r)) :
    ∃ l', TxHolds hdr q (webs_creat_q_and_put_q q local_fd s link r).1 l' := by
  unfold webs_creat_q_and_put_q
  by_cases hnull : link = NULL
  · rw [if_pos hnull]
    exact ⟨l, h⟩
  · rw [if_neg hnull]
    obtain ⟨hq, hnew⟩ := hfresh hnull
    rw [h.queued, List.mem_append, not_or] at hnew
    refine ⟨l ++ [link], (h.rep.link hq hnew.2).put hq hnew.2 hnull, ?_,
      fun hwait => absurd hwait (wake_ne_waiting s.phase)⟩
    dsimp only
    -- The items that were there are as before.
    have hsame : (s.phase.hand ++ l).map
          (fun p => (Function.update s.item link (r.msg local_fd) p).wire hdr)
        = (s.phase.hand ++ l).map (fun p => (s.item p).wire hdr) := by
      apply List.map_congr_left
      intro p hp
      have hne : p ≠ link := by
        rintro rfl
        exact (List.mem_append.mp hp).elim hnew.1 hnew.2
      rw [Function.update_of_ne hne]
    rw [wake_hand, ← List.append_assoc, List.map_append, hsame, ← List.append_assoc, h.order,
      List.map_append, List.map_singleton, List.map_singleton, Function.update_self]

/-- The thread looks at the queue. -/
theorem TxHolds.look {s : TxWorld} {l : List Link} (h : TxHolds hdr q s l)
    (hphase : s.phase = .ready) (malloc : Bool) :
    TxHolds hdr q (jrd_sock_tx_thread hdr q s malloc) l.tail ∧
      (jrd_sock_tx_thread hdr q s malloc).phase.hand = l.head?.toList ∧
      (jrd_sock_tx_thread hdr q s malloc).sent = s.sent := by
  have horder := h.order
  rw [hphase] at horder
  unfold jrd_sock_tx_thread
  rw [hphase]
  dsimp only
  rcases l with _ | ⟨x, l⟩
  · rw [h.rep.get_nil, if_pos rfl]
    exact ⟨⟨h.rep, horder, fun _ => rfl⟩, rfl, rfl⟩
  · obtain ⟨hx, hrep⟩ := h.rep.get
    have hnull : x ≠ NULL := by
      rintro rfl
      exact h.rep.nonnull (by simp)
    rw [hx, if_neg hnull]
    exact ⟨⟨hrep, horder, nofun⟩, rfl, rfl⟩

theorem tx_send {s : TxWorld} {p : Link} (hphase : s.phase = .sending p) :
    jrd_sock_tx_thread hdr q s true
      = { s with sent := s.sent ++ [(s.item p).wire hdr], phase := .ready } := by
  unfold jrd_sock_tx_thread
  rw [hphase]
  rfl

/-- The thread sends what it has in its hand. -/
theorem TxHolds.send {s : TxWorld} {l : List Link} (h : TxHolds hdr q s l) {p : Link}
    (hphase : s.phase = .sending p) :
    TxHolds hdr q (jrd_sock_tx_thread hdr q s true) l := by
  have horder := h.order
  rw [hphase] at horder
  rw [tx_send hphase]
  refine ⟨h.rep, ?_, nofun⟩
  rw [← horder]
  exact List.append_assoc _ _ _

/-- A thread that waits or has returned does nothing. -/
theorem tx_idle {s : TxWorld} (hphase : s.phase = .waiting ∨ ∃ p, s.phase = .ended p)
    (malloc : Bool) : jrd_sock_tx_thread hdr q s malloc = s := by
  unfold jrd_sock_tx_thread
  rcases hphase with hwait | ⟨p, hended⟩
  · rw [hwait]
  · rw [hended]

theorem TxHolds.tx {s : TxWorld} {l : List Link} (h : TxHolds hdr q s l) (malloc : Bool) :
    ∃ l', TxHolds hdr q (jrd_sock_tx_thread hdr q s malloc) l' := by
  rcases hphase : s.phase with _ | _ | p | p
  · exact ⟨_, (h.look hphase malloc).1⟩
  · refine ⟨l, ?_⟩
    rw [tx_idle (Or.inl hphase)]
    exact h
  · rcases malloc with _ | _
    · refine ⟨l, ?_⟩
      have horder := h.order
      rw [hphase] at horder
      unfold jrd_sock_tx_thread
      rw [hphase]
      exact ⟨h.rep, horder, nofun⟩
    · exact ⟨l, h.send hphase⟩
  · refine ⟨l, ?_⟩
    rw [tx_idle (Or.inr ⟨p, hphase⟩)]
    exact h

theorem TxHolds.step {s : TxWorld} {l : List Link} (h : TxHolds hdr q s l) {e : TxEvent}
    (hfresh : TxFresh q s e) : ∃ l', TxHolds hdr q (s.step hdr q local_fd e) l' := by
  rcases e with ⟨link, r⟩ | _ | malloc
  · exact h.put local_fd hfresh
  · exact ⟨l, h.spurious⟩
  · exact h.tx malloc

/-! ## Whole runs -/

def TxEvent.isTx : TxEvent → Bool
  | .tx _ => true
  | _ => false

/-- How many steps of the thread it takes until `k` messages are sent. -/
def txNeed (k : ℕ) (s : TxWorld) : ℕ := 2 * (k - s.sent.length) - s.phase.hand.length

theorem hand_length_le (phase : TxPhase) : phase.hand.length ≤ 1 := by
  cases phase <;> simp [TxPhase.hand]

/-- The thread has not returned. -/
def TxAlive (s : TxWorld) : Prop := ∀ p, s.phase ≠ .ended p

theorem wake_alive {s : TxWorld} (h : TxAlive s) : ∀ p, s.phase.wake ≠ .ended p := by
  intro p
  unfold TxPhase.wake
  split_ifs
  · exact nofun
  · exact h p

/-- What a put leaves alone. -/
theorem put_leaves {s : TxWorld} (h : TxAlive s) (link : Link) (r : TxRequest) :
    TxAlive (webs_creat_q_and_put_q q local_fd s link r).1 ∧
      (webs_creat_q_and_put_q q local_fd s link r).1.sent = s.sent ∧
      (webs_creat_q_and_put_q q local_fd s link r).1.phase.hand = s.phase.hand ∧
      s.puts <+: (webs_creat_q_and_put_q q local_fd s link r).1.puts := by
  unfold webs_creat_q_and_put_q
  split_ifs
  · exact ⟨h, rfl, rfl, List.prefix_rfl⟩
  · exact ⟨wake_alive h, rfl, wake_hand s.phase, List.prefix_append _ _⟩

/-- With nothing in the hand and nothing queued, all is sent. -/
theorem TxHolds.all_sent {s : TxWorld} (h : TxHolds hdr q s []) (hhand : s.phase.hand = []) :
    s.sent.length = s.puts.length := by
  have horder := congrArg List.length h.order
  rw [hhand] at horder
  simpa using horder

/-- A step of the thread counts. -/
theorem TxHolds.countdown {s : TxWorld} {l : List Link} (h : TxHolds hdr q s l)
    (halive : TxAlive s) {k : ℕ} (hk : k ≤ s.puts.length) :
    TxAlive (jrd_sock_tx_thread hdr q s true) ∧
      (jrd_sock_tx_thread hdr q s true).puts = s.puts ∧
      txNeed k (jrd_sock_tx_thread hdr q s true) ≤ txNeed k s - 1 := by
  rcases hphase : s.phase with _ | _ | p | p
  · obtain ⟨-, hhand, hsent⟩ := h.look hphase true
    have hnone : s.phase.hand = [] := by rw [hphase]; rfl
    unfold txNeed
    rw [hhand, hsent, hnone]
    refine ⟨?_, ?_, ?_⟩
    · intro p
      unfold jrd_sock_tx_thread
      rw [hphase]
      dsimp only
      split_ifs
      · exact nofun
      · exact nofun
    · unfold jrd_sock_tx_thread
      rw [hphase]
    · rcases l with _ | ⟨x, l⟩
      · have hall := h.all_sent hnone
        omega
      · exact le_rfl
  · -- It waits, and so there is nothing left to do.
    have hnone : s.phase.hand = [] := by rw [hphase]; rfl
    have hall := TxHolds.all_sent (h.awake hphase ▸ h) hnone
    rw [tx_idle (Or.inl hphase)]
    refine ⟨halive, rfl, ?_⟩
    unfold txNeed
    omega
  · rw [tx_send hphase]
    refine ⟨nofun, rfl, ?_⟩
    unfold txNeed
    rw [hphase]
    dsimp only [TxPhase.hand]
    rw [List.length_append, List.length_singleton, List.length_singleton, List.length_nil]
    omega
  · exact absurd hphase (halive p)

/-- What holds as long as `malloc` gives the thread its memory, from a time on when `ps` have
been put. -/
structure TxRuns (hdr : ℤ → ℕ → Bytes) (q : Link) (ps : List TxMsg) (s : TxWorld) : Prop where
  holds : ∃ l, TxHolds hdr q s l
  alive : TxAlive s
  kept : ps <+: s.puts

theorem TxRuns.step {ps : List TxMsg} {s : TxWorld} (h : TxRuns hdr q ps s) {e : TxEvent}
    (hfresh : TxFresh q s e) (hmem : e ≠ .tx false) :
    TxRuns hdr q ps (s.step hdr q local_fd e) ∧
      txNeed ps.length (s.step hdr q local_fd e)
        ≤ txNeed ps.length s - if e.isTx then 1 else 0 := by
  obtain ⟨l, hl⟩ := h.holds
  have hnext := hl.step local_fd hfresh
  rcases e with ⟨link, r⟩ | _ | malloc
  · obtain ⟨halive, hsent, hhand, hputs⟩ := put_leaves (q := q) local_fd h.alive link r
    refine ⟨⟨hnext, halive, h.kept.trans hputs⟩, ?_⟩
    unfold txNeed
    show 2 * (ps.length - (webs_creat_q_and_put_q q local_fd s link r).1.sent.length)
      - (webs_creat_q_and_put_q q local_fd s link r).1.phase.hand.length ≤ _
    rw [hsent, hhand]
    exact le_rfl
  · refine ⟨⟨hnext, wake_alive h.alive, h.kept⟩, ?_⟩
    unfold txNeed
    show 2 * (ps.length - s.sent.length) - s.phase.wake.hand.length ≤ _
    rw [wake_hand]
    exact le_rfl
  · obtain rfl : malloc = true := Bool.eq_true_of_not_eq_false (fun hc => hmem (hc ▸ rfl))
    obtain ⟨halive, hputs, hneed⟩ := hl.countdown h.alive h.kept.length_le
    exact ⟨⟨hnext, halive, hputs.symm ▸ h.kept⟩, hneed⟩

theorem TxRuns.run {ps : List TxMsg} {s : TxWorld} (h : TxRuns hdr q ps s) {fs : List TxEvent}
    (hfs : Along (TxWorld.step hdr q local_fd) (fun s e => TxFresh q s e ∧ e ≠ .tx false) s fs) :
    TxRuns hdr q ps (run (TxWorld.step hdr q local_fd) s fs) :=
  run_invariant_along (I := TxRuns hdr q ps)
    (fun _ _ h he => (TxRuns.step local_fd h he.1 he.2).1) h hfs

/-- **Two steps for each message.** -/
theorem tx_countdown {ps : List TxMsg} {s : TxWorld} (h : TxRuns hdr q ps s) {fs : List TxEvent}
    (hfs : Along (TxWorld.step hdr q local_fd) (fun s e => TxFresh q s e ∧ e ≠ .tx false) s fs)
    (hcount : 2 * ps.length ≤ fs.countP TxEvent.isTx) :
    ps.length ≤ (Lib.run (TxWorld.step hdr q local_fd) s fs).sent.length := by
  have hinv := Along.with_invariant (I := TxRuns hdr q ps)
    (fun _ _ h he => (TxRuns.step local_fd h he.1 he.2).1) h hfs
  have hneed := measure_countdown (TxWorld.step hdr q local_fd) (f := txNeed ps.length)
    (p := TxEvent.isTx) (fun _ _ he => (TxRuns.step local_fd he.1 he.2.1 he.2.2).2) hinv
  have hhand := hand_length_le (Lib.run (TxWorld.step hdr q local_fd) s fs).phase
  unfold txNeed at hneed
  omega

/-- What has been sent is the first part of what was put. -/
theorem TxHolds.sent_first {s : TxWorld} {l : List Link} (h : TxHolds hdr q s l) :
    s.sent <+: s.puts.map (TxMsg.wire hdr) := ⟨_, h.order⟩

theorem txHolds_init (mem : QMem) (item : Link → TxMsg) :
    TxHolds hdr q (TxWorld.init q mem item) [] := ⟨qrep_init mem q, rfl, nofun⟩

variable (hdr q)

/-- **Every message is sent once, and in its turn.** In every run the thread never waits for a
message that is there, and what it has sent is, call by call, the first part of what was put.
Unless it once got no memory, all that has been put is sent as soon as the thread has made two
steps for each message. -/
theorem tx_queue_delivers (mem : QMem) (item : Link → TxMsg) (es : List TxEvent)
    (hes : Along (TxWorld.step hdr q local_fd) (TxFresh q) (TxWorld.init q mem item) es) :
    (∀ pre post, es = pre ++ post →
      ¬ TxStuck (run (TxWorld.step hdr q local_fd) (TxWorld.init q mem item) pre)) ∧
    (run (TxWorld.step hdr q local_fd) (TxWorld.init q mem item) es).sent
      <+: (run (TxWorld.step hdr q local_fd) (TxWorld.init q mem item) es).puts.map
        (TxMsg.wire hdr) ∧
    ∀ fs, Along (TxWorld.step hdr q local_fd) (TxFresh q)
        (run (TxWorld.step hdr q local_fd) (TxWorld.init q mem item) es) fs →
      (∀ e ∈ es ++ fs, e ≠ .tx false) →
      2 * (run (TxWorld.step hdr q local_fd) (TxWorld.init q mem item) es).puts.length
        ≤ fs.countP TxEvent.isTx →
      (run (TxWorld.step hdr q local_fd) (TxWorld.init q mem item) es).puts.map (TxMsg.wire hdr)
        <+: (run (TxWorld.step hdr q local_fd) (TxWorld.init q mem item) (es ++ fs)).sent := by
  have hholds : ∀ es, Along (TxWorld.step hdr q local_fd) (TxFresh q) (TxWorld.init q mem item) es →
      ∃ l, TxHolds hdr q (run (TxWorld.step hdr q local_fd) (TxWorld.init q mem item) es) l :=
    fun es hes => run_invariant_along (I := fun s => ∃ l, TxHolds hdr q s l)
      (fun s e ⟨l, hl⟩ he => hl.step local_fd he) ⟨[], txHolds_init mem item⟩ hes
  refine ⟨?_, ?_, ?_⟩
  · rintro pre post rfl
    obtain ⟨l, hl⟩ := hholds pre ((along_append _ _ _ pre post).mp hes).1
    exact hl.not_stuck
  · obtain ⟨l, hl⟩ := hholds es hes
    exact hl.sent_first
  · intro fs hfs hmem hcount
    rw [List.forall_mem_append] at hmem
    have hstart : TxRuns hdr q [] (TxWorld.init q mem item) :=
      ⟨⟨[], txHolds_init mem item⟩, nofun, List.nil_prefix⟩
    have hmid := hstart.run local_fd (along_and _ hes (along_of_forall _ _ hmem.1))
    have hfs' := along_and _ hfs (along_of_forall _ _ hmem.2)
    have hfrom := TxRuns.mk hmid.holds hmid.alive List.prefix_rfl
    have hend := hfrom.run local_fd hfs'
    have hlen := tx_countdown local_fd hfrom hfs' hcount
    obtain ⟨l, hl⟩ := hend.holds
    rw [run_append]
    -- Both are first parts of what has been put in the end, and the second is no shorter.
    apply List.prefix_of_prefix_length_le (hend.kept.map _) hl.sent_first
    rw [List.length_map]
    exact hlen

/-- A thread that has returned sends nothing more. -/
theorem ended_step {s : TxWorld} {p : Link} (hphase : s.phase = .ended p) (e : TxEvent) :
    (s.step hdr q local_fd e).phase = .ended p ∧ (s.step hdr q local_fd e).sent = s.sent := by
  have hwake : s.phase.wake = .ended p := by
    rw [hphase]
    rfl
  rcases e with ⟨link, r⟩ | _ | malloc
  · show (webs_creat_q_and_put_q q local_fd s link r).1.phase = _ ∧ _
    unfold TxWorld.step webs_creat_q_and_put_q
    dsimp only
    split_ifs
    · exact ⟨hphase, rfl⟩
    · exact ⟨hwake, rfl⟩
  · exact ⟨hwake, rfl⟩
  · show (jrd_sock_tx_thread hdr q s malloc).phase = _ ∧ (jrd_sock_tx_thread hdr q s malloc).sent = _
    rw [tx_idle (Or.inr ⟨p, hphase⟩)]
    exact ⟨hphase, rfl⟩

theorem ended_run {s : TxWorld} {p : Link} (hphase : s.phase = .ended p) (fs : List TxEvent) :
    (run (TxWorld.step hdr q local_fd) s fs).sent = s.sent := by
  have hend := run_invariant (I := fun t : TxWorld => t.phase = .ended p ∧ t.sent = s.sent)
    (fun t e h => ⟨(ended_step hdr q local_fd h.1 e).1,
      (ended_step hdr q local_fd h.1 e).2.trans h.2⟩) ⟨hphase, rfl⟩ fs
  exact hend.2

end Tx

/-- A header of two bytes. -/
def shortHdr (msg_type : ℤ) (usr_p : ℕ) : Bytes := [UInt8.ofNat msg_type.toNat, UInt8.ofNat usr_p]

/-- Memory that nothing has been written to. -/
def noLinks : QMem := ⟨fun _ => NULL, fun _ => NULL, 0⟩

def noItem : Link → TxMsg := fun _ => ⟨0, 0, 0, 0, []⟩

/-- Two threads put a message each, one to the local socket and one to that of a connection. The
transmit thread has waited, wakes up by itself once, and is in the middle of the first message
when the second comes. -/
def twoPuts : List TxEvent :=
  [.tx true, .spurious, .tx true, .put 10 ⟨none, 3, 4, 2, [65, 66]⟩, .tx true,
    .put 20 ⟨some 8, 5, 6, 1, [67]⟩]

theorem tx_queue_delivers_two :
    (run (TxWorld.step shortHdr 1 7) (TxWorld.init 1 noLinks noItem) twoPuts).puts.map
      (TxMsg.wire shortHdr) = [(7, [3, 4, 65, 66]), (8, [5, 6, 67])] ∧
    (run (TxWorld.step shortHdr 1 7) (TxWorld.init 1 noLinks noItem) twoPuts).puts.map
      (TxMsg.wire shortHdr)
      <+: (run (TxWorld.step shortHdr 1 7) (TxWorld.init 1 noLinks noItem)
        (twoPuts ++ [.tx true, .tx true, .tx true, .tx true])).sent :=
  ⟨by decide,
    (tx_queue_delivers shortHdr 1 7 noLinks noItem twoPuts (by decide)).2.2 _
      (by decide) (by decide) (by decide)⟩

/-- A message has been put, and the thread gets no memory for it: whatever happens then, it is
not sent. -/
theorem tx_queue_out_of_memory :
    (run (TxWorld.step shortHdr 1 7) (TxWorld.init 1 noLinks noItem)
      [.put 10 ⟨none, 3, 4, 2, [65, 66]⟩, .tx true, .tx false]).puts = [⟨7, 3, 4, 2, [65, 66]⟩] ∧
    ∀ fs, (run (TxWorld.step shortHdr 1 7) (TxWorld.init 1 noLinks noItem)
      ([.put 10 ⟨none, 3, 4, 2, [65, 66]⟩, .tx true, .tx false] ++ fs)).sent = [] := by
  refine ⟨by decide, fun fs => ?_⟩
  have hphase : (run (TxWorld.step shortHdr 1 7) (TxWorld.init 1 noLinks noItem)
      [.put 10 ⟨none, 3, 4, 2, [65, 66]⟩, .tx true, .tx false]).phase = .ended 10 := by
    decide
  rw [run_append, ended_run shortHdr 1 7 hphase]
  decide

end TestCore.Webs
