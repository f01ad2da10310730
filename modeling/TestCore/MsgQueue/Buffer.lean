/-
The message buffer of `msg_process.c`: a linked list with a first and a last node and a count.

The operations write `first`, `last`, `num` and single `next` fields, with special cases for no
node and for one node. `Rep buf l` says that all this together represents the list `l`; each
operation is one lemma about it, and says which list is represented afterwards.

An element that is put gets in at the back. It leaves at the front, by being handed to a
consumer or by being freed. The log of what has left, followed by what is still there, is at
any time the log of what was put (`msg_buffer_fifo`): this is the order of the queue, and that
nothing is lost or comes twice. The log is about puts and not about addresses, since `malloc`
may give the block of an element that is gone to a new one.

The operations run under the mutex of the buffer and are atomic here. What happens while a
consumer waits for a message is in `TestCore.MsgQueue.Wakeup`.
-/
import TestCore.Lib.Chain
import TestCore.Lib.Run

set_option autoImplicit false

namespace TestCore.MsgQueue

open TestCore.Lib

/-! ## The buffer -/

abbrev Ptr := ℕ

def NULL : Ptr := 0

/-- `tmsg_buffer`, together with the `next` fields in memory. -/
structure MsgBuffer where
  next : Ptr → Ptr
  first : Ptr
  last : Ptr
  num : ℤ

/-- `msg_buffer_init`, over whatever the memory holds. -/
def msg_buffer_init (next : Ptr → Ptr) : MsgBuffer := ⟨next, NULL, NULL, 0⟩

/-- `put_msg_to_buffer`: the buffer, and whether `not_empty` was signalled. -/
def put_msg_to_buffer (buf : MsgBuffer) (elm : Ptr) : MsgBuffer × Bool :=
  if elm = NULL then (buf, false)
  else
    let next := if buf.next elm ≠ NULL then Function.update buf.next elm NULL else buf.next
    if buf.first = buf.last ∧ buf.num = 0 then
      (⟨next, elm, elm, buf.num + 1⟩, true)
    else
      (⟨Function.update next buf.last elm, buf.first, elm, buf.num + 1⟩, false)

/-- Taking out the first element, in `get_msg_from_buffer` and `get_msg_from_buffer_timeout`:
the buffer, and the element. -/
def takeFirst (buf : MsgBuffer) : MsgBuffer × Ptr :=
  if buf.num = 1 then (⟨buf.next, NULL, NULL, 0⟩, buf.first)
  else (⟨buf.next, buf.next buf.first, buf.last, buf.num - 1⟩, buf.first)

/-- The section of `get_msg_from_buffer` before or after a wait: nothing happens while there is
no element, and the caller waits. -/
def get_msg_from_buffer (buf : MsgBuffer) : MsgBuffer × Ptr :=
  if buf.num = 0 then (buf, NULL) else takeFirst buf

/-- The last section of `get_msg_from_buffer_timeout`. -/
def get_msg_from_buffer_timeout (buf : MsgBuffer) : MsgBuffer × Ptr :=
  if 0 < buf.num then takeFirst buf else (buf, NULL)

/-- What `clear_msg_buffer` has done: the buffer, the elements it has freed, and `elm`. -/
structure Cleared where
  buf : MsgBuffer
  freed : List Ptr
  elm : Ptr

/-- The loop of `clear_msg_buffer`. -/
def clear_msg_buffer.loop : (fuel : ℕ) → MsgBuffer → (elm : Ptr) → List Ptr → Cleared
  | 0, buf, elm, freed => ⟨buf, freed, elm⟩
  | fuel + 1, buf, elm, freed =>
      if elm = NULL then ⟨buf, freed, elm⟩
      else if elm = buf.last then
        ⟨{ buf with first := buf.last, num := if buf.num ≠ 1 then 1 else buf.num }, freed, elm⟩
      else
        let elm_tmp := buf.next elm
        clear_msg_buffer.loop fuel { buf with num := buf.num - 1, first := elm_tmp } elm_tmp
          (freed ++ [elm])

/-- `clear_msg_buffer`. Every turn of the loop but the last frees an element. -/
def clear_msg_buffer (buf : MsgBuffer) : Cleared :=
  if 0 < buf.num then clear_msg_buffer.loop buf.num.toNat buf buf.first [] else ⟨buf, [], NULL⟩

/-- `dispose_msg_buffer`: the buffer just before it is freed itself, and the elements freed. -/
def dispose_msg_buffer (buf : MsgBuffer) : MsgBuffer × List Ptr :=
  let r := if buf.first ≠ buf.last ∧ 0 < buf.num then clear_msg_buffer buf else ⟨buf, [], buf.last⟩
  if r.elm ≠ NULL then
    ({ r.buf with first := NULL, last := NULL, num := 0 }, r.freed ++ [r.elm])
  else (r.buf, r.freed)

/-! ## The list it stands for -/

/-- The chain of `num` nodes from `first` on. -/
def MsgBuffer.nodes (buf : MsgBuffer) : List Ptr := nodesFrom buf.next buf.num.toNat buf.first

/-- The buffer represents `l`. -/
structure Rep (buf : MsgBuffer) (l : List Ptr) : Prop where
  chain : Chain buf.next buf.first l NULL
  nonnull : NULL ∉ l
  nodup : l.Nodup
  num : buf.num = l.length
  last : buf.last = l.getLastD NULL

theorem Rep.nodes {buf : MsgBuffer} {l : List Ptr} (h : Rep buf l) : buf.nodes = l := by
  unfold MsgBuffer.nodes
  rw [h.num, Int.toNat_natCast, h.chain.nodesFrom]

theorem rep_init (next : Ptr → Ptr) : Rep (msg_buffer_init next) [] :=
  ⟨rfl, by simp, List.nodup_nil, rfl, rfl⟩

/-- The tests of the source for an empty buffer. -/
theorem Rep.empty_iff {buf : MsgBuffer} {l : List Ptr} (h : Rep buf l) :
    (buf.first = buf.last ∧ buf.num = 0) ↔ l = [] := by
  have hnum := h.num
  constructor
  · rintro ⟨-, hzero⟩
    apply List.length_eq_zero_iff.mp
    omega
  · rintro rfl
    refine ⟨?_, hnum⟩
    rw [h.chain.head, h.last]
    rfl

/-- An element that is put comes last. -/
theorem Rep.put {buf : MsgBuffer} {l : List Ptr} (h : Rep buf l) {elm : Ptr} (hnull : elm ≠ NULL)
    (hnew : elm ∉ l) :
    Rep (put_msg_to_buffer buf elm).1 (l ++ [elm]) ∧
      ((put_msg_to_buffer buf elm).2 = true ↔ l = []) := by
  obtain ⟨hchain, hnonnull, hnodup, hnum, hlast⟩ := h
  have hempty := Rep.empty_iff ⟨hchain, hnonnull, hnodup, hnum, hlast⟩
  -- The pointer of the new element is cleared first.
  obtain ⟨next, hnext⟩ : ∃ next, next = if buf.next elm ≠ NULL then
      Function.update buf.next elm NULL else buf.next := ⟨_, rfl⟩
  have hchain' : Chain next buf.first l NULL := by
    rw [hnext]
    split_ifs
    · exact hchain.update hnew NULL
    · exact hchain
  have helm : next elm = NULL := by
    rw [hnext]
    split_ifs with hset
    · exact Function.update_self _ _ _
    · exact not_not.mp hset
  have hnonnull' : NULL ∉ l ++ [elm] := by
    rw [List.mem_append, List.mem_singleton]
    rintro (hmem | heq)
    · exact hnonnull hmem
    · exact hnull heq.symm
  have hnodup' : (l ++ [elm]).Nodup := by
    rw [← List.concat_eq_append, List.nodup_concat]
    exact ⟨hnew, hnodup⟩
  have hnum' : buf.num + 1 = ((l ++ [elm]).length : ℤ) := by
    rw [List.length_append, hnum]
    rfl
  have hlast' : elm = (l ++ [elm]).getLastD NULL := by simp
  unfold put_msg_to_buffer
  rw [if_neg hnull]
  dsimp only
  rw [← hnext]
  by_cases hl : l = []
  · rw [if_pos (hempty.mpr hl)]
    subst hl
    exact ⟨⟨⟨rfl, helm⟩, hnonnull', hnodup', hnum', hlast'⟩, by simp⟩
  · rw [if_neg (mt hempty.mp hl)]
    obtain ⟨front, x, rfl⟩ := (List.eq_nil_or_concat' l).resolve_left hl
    have hx : buf.last = x := by
      rw [hlast, List.getLastD_concat]
    have hdisjoint : x ∉ front := by
      rw [← List.concat_eq_append, List.nodup_concat] at hnodup
      exact hnodup.1
    refine ⟨⟨?_, hnonnull', hnodup', hnum', hlast'⟩, by simp⟩
    -- The last node is turned to the new one, which ends the chain.
    have hlonger := hchain'.concat hdisjoint hnew
    rw [helm] at hlonger
    rw [hx]
    exact hlonger

theorem Rep.last_eq {buf : MsgBuffer} {x : Ptr} {l : List Ptr} (h : Rep buf (l ++ [x])) :
    buf.last = x := by
  rw [h.last, List.getLastD_concat]

theorem Rep.ne_null {buf : MsgBuffer} {x : Ptr} {l : List Ptr} (h : Rep buf l) (hx : x ∈ l) :
    x ≠ NULL := by
  rintro rfl
  exact h.nonnull hx

theorem getLastD_cons {x : Ptr} {l : List Ptr} (hl : l ≠ []) :
    (x :: l).getLastD NULL = l.getLastD NULL := by
  rcases l with _ | ⟨y, l⟩
  · exact absurd rfl hl
  · rfl

/-- Dropping the first node, of several. -/
theorem Rep.tail {buf : MsgBuffer} {x : Ptr} {l : List Ptr} (h : Rep buf (x :: l)) (hl : l ≠ []) :
    Rep ⟨buf.next, buf.next buf.first, buf.last, buf.num - 1⟩ l := by
  obtain ⟨⟨hx, hrest⟩, hnonnull, hnodup, hnum, hlast⟩ := h
  refine ⟨?_, fun hmem => hnonnull (List.mem_cons_of_mem x hmem), (List.nodup_cons.mp hnodup).2,
    ?_, ?_⟩
  · dsimp only
    rw [hx]
    exact hrest
  · dsimp only
    rw [hnum, List.length_cons]
    push_cast
    ring
  · dsimp only
    rw [hlast, getLastD_cons hl]

/-- The first element is taken. -/
theorem Rep.take {buf : MsgBuffer} {x : Ptr} {l : List Ptr} (h : Rep buf (x :: l)) :
    (takeFirst buf).2 = x ∧ Rep (takeFirst buf).1 l := by
  have hnum := h.num
  have hfirst : buf.first = x := h.chain.1
  rw [List.length_cons] at hnum
  unfold takeFirst
  rcases eq_or_ne l [] with rfl | hl
  · have hone : buf.num = 1 := hnum
    rw [if_pos hone]
    exact ⟨hfirst, rfl, by simp, List.nodup_nil, rfl, rfl⟩
  · have hpos : 0 < l.length := List.length_pos_iff.mpr hl
    rw [if_neg (by omega)]
    exact ⟨hfirst, h.tail hl⟩

/-- The loop frees the nodes before the last one, in order. -/
theorem Rep.clear_loop {buf : MsgBuffer} {x : Ptr} {l : List Ptr} (h : Rep buf (l ++ [x]))
    (fuel : ℕ) (hfuel : l.length < fuel) (freed : List Ptr) :
    (clear_msg_buffer.loop fuel buf buf.first freed).elm = x ∧
      (clear_msg_buffer.loop fuel buf buf.first freed).freed = freed ++ l ∧
      Rep (clear_msg_buffer.loop fuel buf buf.first freed).buf [x] := by
  -- By induction on the nodes before the last one; a turn drops the first of them.
  induction l generalizing buf fuel freed with
  | nil =>
      obtain ⟨fuel, rfl⟩ : ∃ f, fuel = f + 1 := ⟨fuel - 1, by omega⟩
      have hfirst : buf.first = x := h.chain.1
      have hlast : buf.last = x := h.last
      have hnull : x ≠ NULL := h.ne_null (by simp)
      rw [clear_msg_buffer.loop, hfirst, if_neg hnull, if_pos hlast.symm, List.append_nil]
      refine ⟨rfl, rfl, ?_, h.nonnull, h.nodup, ?_, hlast⟩
      · refine ⟨hlast, ?_⟩
        exact h.chain.2
      · dsimp only
        split_ifs with hone
        · rfl
        · exact not_not.mp hone
  | cons y l ih =>
      obtain ⟨fuel, rfl⟩ : ∃ f, fuel = f + 1 := ⟨fuel - 1, by omega⟩
      have hfirst : buf.first = y := h.chain.1
      have hlast : buf.last = x := h.last_eq
      have hnull : y ≠ NULL := h.ne_null (by simp)
      have hyx : y ≠ x := by
        rintro rfl
        exact (List.nodup_cons.mp h.nodup).1 (by simp)
      have hturn : clear_msg_buffer.loop (fuel + 1) buf buf.first freed
          = clear_msg_buffer.loop fuel ⟨buf.next, buf.next buf.first, buf.last, buf.num - 1⟩
              (buf.next buf.first) (freed ++ [buf.first]) := by
        rw [clear_msg_buffer.loop, if_neg (by rw [hfirst]; exact hnull),
          if_neg (by rw [hfirst, hlast]; exact hyx)]
      have hnext := h.tail (by simp)
      rw [List.length_cons] at hfuel
      obtain ⟨helm, hfreed, hrep⟩ := ih hnext fuel (by omega) (freed ++ [buf.first])
      rw [hturn]
      refine ⟨helm, hfreed.trans ?_, hrep⟩
      rw [hfirst, List.append_assoc, List.singleton_append]

/-- All elements but the newest one are freed, in order. -/
theorem Rep.clear {buf : MsgBuffer} {x : Ptr} {l : List Ptr} (h : Rep buf (l ++ [x])) :
    (clear_msg_buffer buf).elm = x ∧ (clear_msg_buffer buf).freed = l ∧
      Rep (clear_msg_buffer buf).buf [x] := by
  have hnum : buf.num = (l.length + 1 : ℕ) := by
    rw [h.num, List.length_append, List.length_singleton]
  unfold clear_msg_buffer
  rw [if_pos (by omega), hnum, Int.toNat_natCast]
  exact h.clear_loop (l.length + 1) (Nat.lt_succ_self _) []

theorem Rep.clear_nil {buf : MsgBuffer} (h : Rep buf []) : clear_msg_buffer buf = ⟨buf, [], NULL⟩ := by
  have hnum : buf.num = 0 := h.num
  unfold clear_msg_buffer
  rw [if_neg (by omega)]

/-- Everything is freed. -/
theorem Rep.dispose {buf : MsgBuffer} {l : List Ptr} (h : Rep buf l) :
    (dispose_msg_buffer buf).2 = l ∧ Rep (dispose_msg_buffer buf).1 [] := by
  have hempty : ∀ next, Rep ⟨next, NULL, NULL, 0⟩ [] := rep_init
  unfold dispose_msg_buffer
  dsimp only
  rcases List.eq_nil_or_concat' l with rfl | ⟨front, x, rfl⟩
  · -- The list is empty and there is nothing to free.
    have hsame : ¬ (buf.first ≠ buf.last ∧ 0 < buf.num) := fun hc => hc.1 (h.empty_iff.mpr rfl).1
    have hlast : buf.last = NULL := h.last
    rw [if_neg hsame, if_neg (not_not.mpr hlast)]
    exact ⟨rfl, h⟩
  · have hnull : x ≠ NULL := h.ne_null (by simp)
    have hlast : buf.last = x := h.last_eq
    rcases eq_or_ne front [] with rfl | hfront
    · -- One element: the two ends are the same.
      have hsame : ¬ (buf.first ≠ buf.last ∧ 0 < buf.num) := by
        rintro ⟨hne, -⟩
        rw [hlast] at hne
        exact hne h.chain.1
      have helm : buf.last ≠ NULL := by
        rw [hlast]
        exact hnull
      rw [if_neg hsame, if_pos helm]
      refine ⟨?_, hempty _⟩
      dsimp only
      rw [hlast]
    · obtain ⟨y, front, rfl⟩ := List.exists_cons_of_ne_nil hfront
      have hseveral : buf.first ≠ buf.last ∧ 0 < buf.num := by
        refine ⟨?_, ?_⟩
        · rw [hlast, h.chain.1]
          rintro rfl
          exact (List.nodup_cons.mp h.nodup).1 (by simp)
        · rw [h.num, List.length_append, List.length_singleton]
          omega
      obtain ⟨helm, hfreed, hrep⟩ := h.clear
      rw [if_pos hseveral, if_pos (by rw [helm]; exact hnull)]
      refine ⟨?_, hempty _⟩
      dsimp only
      rw [hfreed, helm]

/-! ## Traffic -/

/-- How an element left the buffer. -/
inductive Fate where
  | returned
  | freed
  deriving DecidableEq, Repr

/-- The buffer, what was put into it, and what has left it, oldest first. -/
structure Traffic where
  buf : MsgBuffer
  puts : List Ptr
  gone : List (Ptr × Fate)
  disposed : Bool

def Traffic.init (next : Ptr → Ptr) : Traffic := ⟨msg_buffer_init next, [], [], false⟩

inductive Op where
  | put_msg_to_buffer (elm : Ptr)
  | get_msg_from_buffer
  | get_msg_from_buffer_timeout
  | clear_msg_buffer
  | dispose_msg_buffer

/-- A consumer has got `r.2`, if it is an element. -/
def Traffic.hand (t : Traffic) (r : MsgBuffer × Ptr) : Traffic :=
  { t with buf := r.1, gone := if r.2 ≠ NULL then t.gone ++ [(r.2, .returned)] else t.gone }

/-- The elements `l` were freed. -/
def Traffic.free (t : Traffic) (buf : MsgBuffer) (l : List Ptr) : Traffic :=
  { t with buf := buf, gone := t.gone ++ l.map fun e => (e, .freed) }

def Traffic.step (t : Traffic) : Op → Traffic
  | .put_msg_to_buffer elm =>
      { t with
        buf := (TestCore.MsgQueue.put_msg_to_buffer t.buf elm).1
        puts := if elm ≠ NULL then t.puts ++ [elm] else t.puts }
  | .get_msg_from_buffer => t.hand (TestCore.MsgQueue.get_msg_from_buffer t.buf)
  | .get_msg_from_buffer_timeout => t.hand (TestCore.MsgQueue.get_msg_from_buffer_timeout t.buf)
  | .clear_msg_buffer =>
      t.free (TestCore.MsgQueue.clear_msg_buffer t.buf).buf
        (TestCore.MsgQueue.clear_msg_buffer t.buf).freed
  | .dispose_msg_buffer =>
      { t.free (TestCore.MsgQueue.dispose_msg_buffer t.buf).1
          (TestCore.MsgQueue.dispose_msg_buffer t.buf).2 with disposed := true }

/-- The caller may do this: the buffer is still there, and the element it puts is its own and
not in the buffer. The senders put a block that they have just got from `malloc`. -/
def Legal (t : Traffic) (op : Op) : Prop :=
  t.disposed = false ∧ ∀ elm, op = .put_msg_to_buffer elm → elm ∉ t.buf.nodes

instance (t : Traffic) (op : Op) : Decidable (Legal t op) :=
  match op with
  | .put_msg_to_buffer elm =>
      decidable_of_iff (t.disposed = false ∧ elm ∉ t.buf.nodes)
        ⟨fun h => ⟨h.1, fun _ he => Op.put_msg_to_buffer.inj he ▸ h.2⟩, fun h => ⟨h.1, h.2 elm rfl⟩⟩
  | .get_msg_from_buffer => decidable_of_iff (t.disposed = false) ⟨fun h => ⟨h, nofun⟩, fun h => h.1⟩
  | .get_msg_from_buffer_timeout =>
      decidable_of_iff (t.disposed = false) ⟨fun h => ⟨h, nofun⟩, fun h => h.1⟩
  | .clear_msg_buffer => decidable_of_iff (t.disposed = false) ⟨fun h => ⟨h, nofun⟩, fun h => h.1⟩
  | .dispose_msg_buffer => decidable_of_iff (t.disposed = false) ⟨fun h => ⟨h, nofun⟩, fun h => h.1⟩

/-- The buffer represents `l`, and what is gone, followed by `l`, is what was put. -/
structure Traffic.Holds (t : Traffic) (l : List Ptr) : Prop where
  rep : Rep t.buf l
  order : t.gone.map Prod.fst ++ l = t.puts

theorem Traffic.Holds.put {t : Traffic} {l : List Ptr} (h : t.Holds l) {elm : Ptr}
    (hnew : elm ∉ l) :
    (t.step (.put_msg_to_buffer elm)).Holds (if elm ≠ NULL then l ++ [elm] else l) := by
  unfold Traffic.step
  dsimp only
  by_cases hnull : elm = NULL
  · rw [if_neg (not_not.mpr hnull), if_neg (not_not.mpr hnull)]
    unfold TestCore.MsgQueue.put_msg_to_buffer
    rw [if_pos hnull]
    exact h
  · rw [if_pos hnull, if_pos hnull]
    refine ⟨(h.rep.put hnull hnew).1, ?_⟩
    dsimp only
    rw [← List.append_assoc, h.order]

/-- A get takes the first element, if there is one. -/
theorem Traffic.Holds.hand {t : Traffic} {l : List Ptr} (h : t.Holds l) {r : MsgBuffer × Ptr}
    (hr : r = if l = [] then (t.buf, NULL) else takeFirst t.buf) :
    (t.hand r).Holds l.tail ∧
      (t.hand r).gone = t.gone ++ l.head?.toList.map (fun e => (e, Fate.returned)) := by
  unfold Traffic.hand
  rcases l with _ | ⟨x, l⟩
  · rw [if_pos rfl] at hr
    rw [hr]
    exact ⟨⟨h.rep, h.order⟩, (List.append_nil _).symm⟩
  · rw [if_neg (List.cons_ne_nil x l)] at hr
    obtain ⟨helm, hrep⟩ := h.rep.take
    have hnull : r.2 ≠ NULL := by
      rw [hr, helm]
      exact h.rep.ne_null (by simp)
    rw [if_pos hnull, hr, helm]
    refine ⟨⟨hrep, ?_⟩, rfl⟩
    dsimp only
    rw [List.map_append, List.append_assoc]
    exact h.order

theorem Traffic.Holds.get {t : Traffic} {l : List Ptr} (h : t.Holds l) :
    (t.step .get_msg_from_buffer).Holds l.tail ∧
      (t.step .get_msg_from_buffer).gone
        = t.gone ++ l.head?.toList.map (fun e => (e, Fate.returned)) := by
  apply h.hand
  unfold TestCore.MsgQueue.get_msg_from_buffer
  have hnum := h.rep.num
  rcases l with _ | ⟨x, l⟩
  · have hzero : t.buf.num = 0 := hnum
    rw [if_pos rfl, if_pos hzero]
  · rw [List.length_cons] at hnum
    rw [if_neg (List.cons_ne_nil x l), if_neg (by omega)]

theorem Traffic.Holds.get_timeout {t : Traffic} {l : List Ptr} (h : t.Holds l) :
    (t.step .get_msg_from_buffer_timeout).Holds l.tail ∧
      (t.step .get_msg_from_buffer_timeout).gone
        = t.gone ++ l.head?.toList.map (fun e => (e, Fate.returned)) := by
  apply h.hand
  unfold TestCore.MsgQueue.get_msg_from_buffer_timeout
  have hnum := h.rep.num
  rcases l with _ | ⟨x, l⟩
  · have hzero : t.buf.num = 0 := hnum
    rw [if_pos rfl, if_neg (by omega)]
  · rw [List.length_cons] at hnum
    rw [if_neg (List.cons_ne_nil x l), if_pos (by omega)]

theorem Traffic.Holds.free {t : Traffic} {l freed rest : List Ptr} (h : t.Holds l)
    (hl : l = freed ++ rest) {buf : MsgBuffer} (hrep : Rep buf rest) :
    (t.free buf freed).Holds rest := by
  refine ⟨hrep, ?_⟩
  unfold Traffic.free
  dsimp only
  rw [List.map_append, List.map_map, List.append_assoc]
  have hid : freed.map (Prod.fst ∘ fun e => (e, Fate.freed)) = freed := List.map_id _
  rw [hid, ← hl]
  exact h.order

/-- A clear frees everything but the newest element. -/
theorem Traffic.Holds.clear {t : Traffic} {l : List Ptr} (h : t.Holds l) :
    (t.step .clear_msg_buffer).Holds l.getLast?.toList ∧
      (t.step .clear_msg_buffer).gone = t.gone ++ l.dropLast.map (fun e => (e, Fate.freed)) := by
  unfold Traffic.step
  dsimp only
  rcases List.eq_nil_or_concat' l with rfl | ⟨front, x, rfl⟩
  · rw [h.rep.clear_nil]
    exact ⟨h.free rfl h.rep, rfl⟩
  · obtain ⟨-, hfreed, hrep⟩ := h.rep.clear
    rw [hfreed, List.getLast?_concat, List.dropLast_concat]
    exact ⟨h.free rfl hrep, rfl⟩

theorem Traffic.Holds.dispose {t : Traffic} {l : List Ptr} (h : t.Holds l) :
    (t.step .dispose_msg_buffer).Holds [] ∧
      (t.step .dispose_msg_buffer).gone = t.gone ++ l.map (fun e => (e, Fate.freed)) := by
  obtain ⟨hfreed, hrep⟩ := h.rep.dispose
  unfold Traffic.step
  dsimp only
  rw [hfreed]
  have hfree := h.free (List.append_nil l).symm hrep
  exact ⟨⟨hfree.rep, hfree.order⟩, rfl⟩

theorem Traffic.Holds.step {t : Traffic} {l : List Ptr} (h : t.Holds l) {op : Op}
    (hop : Legal t op) : ∃ l', (t.step op).Holds l' := by
  cases op with
  | put_msg_to_buffer elm => exact ⟨_, h.put (h.rep.nodes ▸ hop.2 elm rfl)⟩
  | get_msg_from_buffer => exact ⟨_, h.get.1⟩
  | get_msg_from_buffer_timeout => exact ⟨_, h.get_timeout.1⟩
  | clear_msg_buffer => exact ⟨_, h.clear.1⟩
  | dispose_msg_buffer => exact ⟨_, h.dispose.1⟩

/-- The elements that gets have returned. -/
def Traffic.returned (t : Traffic) : List Ptr :=
  (t.gone.filter fun g => g.2 = .returned).map Prod.fst

/-- What is true of the buffer and the logs after every run. -/
structure Fifo (t : Traffic) : Prop where
  /-- The nodes from `first` on, `num` of them, are a chain that ends. -/
  chain : Chain t.buf.next t.buf.first t.buf.nodes NULL
  num : t.buf.num = t.buf.nodes.length
  last : t.buf.last = t.buf.nodes.getLastD NULL
  first_null : t.buf.first = NULL ↔ t.buf.num = 0
  last_null : t.buf.last = NULL ↔ t.buf.num = 0
  /-- What was put has left, in the same order, or is still there. -/
  order : t.gone.map Prod.fst ++ t.buf.nodes = t.puts
  returned : t.returned.Sublist t.puts
  get : (t.step .get_msg_from_buffer).gone
      = t.gone ++ t.buf.nodes.head?.toList.map (fun e => (e, Fate.returned))
  get_timeout : (t.step .get_msg_from_buffer_timeout).gone
      = t.gone ++ t.buf.nodes.head?.toList.map (fun e => (e, Fate.returned))
  /-- A clear leaves the newest element and frees the others. -/
  clear : (t.step .clear_msg_buffer).buf.nodes = t.buf.nodes.getLast?.toList ∧
    (t.step .clear_msg_buffer).gone
      = t.gone ++ t.buf.nodes.dropLast.map (fun e => (e, Fate.freed))
  /-- Once the buffer is disposed of, nothing is left. -/
  dispose : (t.step .dispose_msg_buffer).gone
      = t.gone ++ t.buf.nodes.map (fun e => (e, Fate.freed))

theorem Traffic.Holds.fifo {t : Traffic} {l : List Ptr} (h : t.Holds l) : Fifo t := by
  have hrep := h.rep
  have horder := h.order
  have hnodes := hrep.nodes
  have hnum := hrep.num
  have hsub : t.returned.Sublist t.puts := by
    have hgone : t.returned.Sublist (t.gone.map Prod.fst) := List.filter_sublist.map Prod.fst
    rw [← horder]
    exact hgone.trans (List.sublist_append_left _ _)
  have hnull : (t.buf.first = NULL ↔ t.buf.num = 0) ∧ (t.buf.last = NULL ↔ t.buf.num = 0) := by
    rcases List.eq_nil_or_concat' l with rfl | ⟨front, x, rfl⟩
    · have hzero : t.buf.num = 0 := hnum
      have hfirst : t.buf.first = NULL := hrep.chain
      have hlast : t.buf.last = NULL := hrep.last
      simp [hzero, hfirst, hlast]
    · have hpos : t.buf.num ≠ 0 := by
        rw [hnum, List.length_append, List.length_singleton]
        omega
      have hlast : t.buf.last ≠ NULL := by
        rw [hrep.last_eq]
        exact hrep.ne_null (by simp)
      have hfirst : t.buf.first ≠ NULL := by
        rw [hrep.chain.head]
        apply hrep.ne_null
        rcases front with _ | ⟨y, front⟩
        · simp
        · simp
      simp [hpos, hfirst, hlast]
  constructor
  case chain => rw [hnodes]; exact hrep.chain
  case num => rw [hnodes]; exact hnum
  case last => rw [hnodes]; exact hrep.last
  case first_null => exact hnull.1
  case last_null => exact hnull.2
  case order => rw [hnodes]; exact horder
  case returned => exact hsub
  case get => rw [hnodes]; exact h.get.2
  case get_timeout => rw [hnodes]; exact h.get_timeout.2
  case clear => rw [hnodes]; exact ⟨h.clear.1.rep.nodes, h.clear.2⟩
  case dispose => rw [hnodes]; exact h.dispose.2

/-- **The buffer is a queue.** -/
theorem msg_buffer_fifo (next : Ptr → Ptr) (ops : List Op)
    (hops : Along Traffic.step Legal (Traffic.init next) ops) :
    Fifo (run Traffic.step (Traffic.init next) ops) := by
  have hstart : ∃ l, (Traffic.init next).Holds l := ⟨[], rep_init next, rfl⟩
  obtain ⟨l, hl⟩ := run_invariant_along (I := fun t => ∃ l, t.Holds l)
    (fun t op ⟨l, hl⟩ hop => hl.step hop) hstart hops
  exact hl.fifo

/-- Four puts, a get, a clear that keeps the newest element, and a put of the address that the
get has returned. -/
theorem msg_buffer_fifo_reuse :
    (run Traffic.step (Traffic.init fun _ => NULL)
      [.put_msg_to_buffer 10, .put_msg_to_buffer 20, .put_msg_to_buffer 30, .get_msg_from_buffer,
        .put_msg_to_buffer 40, .clear_msg_buffer, .put_msg_to_buffer 10]).buf.nodes = [40, 10] ∧
    Fifo (run Traffic.step (Traffic.init fun _ => NULL)
      [.put_msg_to_buffer 10, .put_msg_to_buffer 20, .put_msg_to_buffer 30, .get_msg_from_buffer,
        .put_msg_to_buffer 40, .clear_msg_buffer, .put_msg_to_buffer 10]) :=
  ⟨by decide, msg_buffer_fifo _ _ (by decide)⟩

end TestCore.MsgQueue
