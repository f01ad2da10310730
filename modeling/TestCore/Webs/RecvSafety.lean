/-
Frames that nobody would send.

`client_recv_msg` takes the length of a frame from the wire. It compares it with the number of
bytes it has, and with nothing else: a length that is zero, negative or smaller than the two words
and the header is handed to `jrd_put_data_to_web_tx_q` like any other. What a call may do is said
by `CallSafe`: its loop comes to an end, and every frame that is handed on has room for a header
and lies within the bytes received.

Such lengths apart, every turn of the loop takes a frame off the front of the bytes
(`RecvLoop.At.turn`), so that the loop is at the start of a frame at all times; and a length that
is too small is met exactly if it stands behind whole frames (`ShortFrame`).
-/
import TestCore.Lib.Loop
import TestCore.Webs.Reconnect

set_option autoImplicit false

namespace TestCore.Webs

open TestCore.Lib

/-! ## The loop, turn by turn -/

/-- The loop of `client_recv_msg` before its condition is tested. -/
structure RecvLoop where
  rx : SockRx
  offset : ℕ
  sock_len : ℤ
  deriving DecidableEq

/-- One turn of the loop: the call returns, or the loop goes on. -/
def client_recv_msg.turn (d : SockDefs) (l : RecvLoop) : (SockRx × RecvEnd) ⊕ RecvLoop :=
  if l.sock_len ≤ l.rx.remind_buf_size then
    match jrd_put_data_to_web_tx_q d (l.rx.rx_buf.drop (l.offset + 8)) (l.sock_len - 8) with
    | .failed => .inl (l.rx, .putFailed)
    | .fault => .inl ({ l.rx with fault := true }, .fault)
    | .ok m =>
        let rx := l.rx.took m l.sock_len
        let offset := l.offset + l.sock_len.toNat
        if rx.remind_buf_size = 0 then .inl (rx, .wait)
        else if rx.remind_buf_size < d.overhead then .inl (rx.compact offset, .wait)
        else if readInt (rx.rx_buf.drop offset) ≠ d.PACK_HEAD then .inl (rx, .headError)
        else
          let sock_len := readInt (rx.rx_buf.drop (offset + 4))
          if rx.remind_buf_size < sock_len then .inl (rx.compact offset, .wait)
          else .inr ⟨rx, offset, sock_len⟩
  else .inl (l.rx, .wait)

/-- `client_recv_msg` up to the loop. -/
def client_recv_msg.enter (d : SockDefs) (rx : SockRx) (chunk : Bytes) :
    (SockRx × RecvEnd) ⊕ RecvLoop :=
  let rx := rx.append chunk
  if rx.remind_buf_size ≤ d.overhead then .inl (rx, .wait)
  else if readInt rx.rx_buf ≠ d.PACK_HEAD then .inl (rx, .headError)
  else
    let sock_len := readInt (rx.rx_buf.drop 4)
    if rx.remind_buf_size < sock_len then .inl (rx, .wait) else .inr ⟨rx, 0, sock_len⟩

/-- `client_recv_msg.loop` makes these turns. -/
theorem loop_succ (d : SockDefs) (n : ℕ) (l : RecvLoop) :
    client_recv_msg.loop d (n + 1) l.rx l.offset l.sock_len =
      match client_recv_msg.turn d l with
      | .inl r => r
      | .inr l' => client_recv_msg.loop d n l'.rx l'.offset l'.sock_len := by
  rw [client_recv_msg.loop]
  unfold client_recv_msg.turn
  rcases jrd_put_data_to_web_tx_q d (l.rx.rx_buf.drop (l.offset + 8)) (l.sock_len - 8) with m | _ | _
  · dsimp only
    split_ifs <;> rfl
  · split_ifs <;> rfl
  · split_ifs <;> rfl

theorem loop_eq_of_turns {d : SockDefs} {n : ℕ} {l : RecvLoop} {r : SockRx × RecvEnd}
    (h : loopFor (client_recv_msg.turn d) n l = some r) :
    client_recv_msg.loop d n l.rx l.offset l.sock_len = r := by
  induction n generalizing l with
  | zero => cases h
  | succ n ih =>
      rw [loop_succ]
      rcases hturn : client_recv_msg.turn d l with r' | l'
      · rw [loopFor_inl hturn] at h
        exact Option.some.inj h
      · rw [loopFor_inr hturn] at h
        exact ih h

/-- A turn that takes a message. -/
theorem turn_ok {d : SockDefs} {l : RecvLoop} (hfits : l.sock_len ≤ l.rx.remind_buf_size)
    {m : RxMsg}
    (hput : jrd_put_data_to_web_tx_q d (l.rx.rx_buf.drop (l.offset + 8)) (l.sock_len - 8) = .ok m) :
    client_recv_msg.turn d l =
      if (l.rx.took m l.sock_len).remind_buf_size = 0 then .inl (l.rx.took m l.sock_len, .wait)
      else if (l.rx.took m l.sock_len).remind_buf_size < d.overhead then
        .inl ((l.rx.took m l.sock_len).compact (l.offset + l.sock_len.toNat), .wait)
      else if readInt ((l.rx.took m l.sock_len).rx_buf.drop (l.offset + l.sock_len.toNat))
          ≠ d.PACK_HEAD then .inl (l.rx.took m l.sock_len, .headError)
      else if (l.rx.took m l.sock_len).remind_buf_size
          < readInt ((l.rx.took m l.sock_len).rx_buf.drop (l.offset + l.sock_len.toNat + 4)) then
        .inl ((l.rx.took m l.sock_len).compact (l.offset + l.sock_len.toNat), .wait)
      else .inr ⟨l.rx.took m l.sock_len, l.offset + l.sock_len.toNat,
        readInt ((l.rx.took m l.sock_len).rx_buf.drop (l.offset + l.sock_len.toNat + 4))⟩ := by
  unfold client_recv_msg.turn
  rw [if_pos hfits, hput]

/-- A turn after which the loop goes on has taken a frame, and at least its header is to come. -/
theorem turn_inr_remind {d : SockDefs} {l l' : RecvLoop}
    (h : client_recv_msg.turn d l = .inr l') :
    l'.rx.remind_buf_size < l.rx.remind_buf_size ∧ 0 < l'.rx.remind_buf_size := by
  unfold client_recv_msg.turn at h
  dsimp only at h
  split_ifs at h with hle
  split at h
  · cases h
  · cases h
  · rename_i m hput
    split_ifs at h with hzero hlittle hhead hshort
    rw [← Sum.inr.inj h]
    have hremind : (l.rx.took m l.sock_len).remind_buf_size
        = l.rx.remind_buf_size - l.sock_len.toNat := rfl
    have hover := put_ok_le hput
    unfold SockDefs.overhead at hover
    dsimp only
    omega

/-- The fuel of `client_recv_msg.loop` is enough. -/
theorem turns_enough {d : SockDefs} {n : ℕ} (hn : 0 < n) {l : RecvLoop}
    (h : l.rx.remind_buf_size ≤ n) : ∃ r, loopFor (client_recv_msg.turn d) n l = some r := by
  induction n generalizing l with
  | zero => exact absurd hn (lt_irrefl 0)
  | succ n ih =>
      rcases hturn : client_recv_msg.turn d l with r | l'
      · exact ⟨r, loopFor_inl hturn n⟩
      · obtain ⟨hlt, hpos⟩ := turn_inr_remind hturn
        rw [loopFor_inr hturn]
        exact ih (by omega) (by omega)

/-- **A call returns what its loop ends with.** -/
theorem client_recv_msg_ends (d : SockDefs) (rx : SockRx) (chunk : Bytes) :
    match client_recv_msg.enter d rx chunk with
    | .inl r => client_recv_msg d rx chunk = r
    | .inr l => EndsWith (client_recv_msg.turn d) l (client_recv_msg d rx chunk) := by
  unfold client_recv_msg.enter client_recv_msg
  dsimp only
  split_ifs with hlittle hhead hshort
  · rfl
  · rfl
  · rfl
  · dsimp only
    obtain ⟨r, hr⟩ := @turns_enough d (rx.append chunk).remind_buf_size (by omega)
      ⟨rx.append chunk, 0, readInt ((rx.append chunk).rx_buf.drop 4)⟩ (le_refl _)
    rw [loop_eq_of_turns hr]
    exact ⟨_, hr⟩

/-! ## What is handed on -/

/-- A call is safe: its loop ends, and not in a copy of negative length; and a frame that is
handed to `jrd_put_data_to_web_tx_q` has a header and lies within what was received. -/
def CallSafe (d : SockDefs) (rx : SockRx) (chunk : Bytes) : Prop :=
  ∀ l, client_recv_msg.enter d rx chunk = .inr l →
    (∃ r, EndsWith (client_recv_msg.turn d) l r ∧ r.2 ≠ .fault) ∧
    ∀ l', Visits (client_recv_msg.turn d) l l' → l'.sock_len ≤ l'.rx.remind_buf_size →
      d.overhead ≤ l'.sock_len ∧
        l'.offset + l'.sock_len ≤ (rx.remind_buf_size + chunk.length : ℕ)

/-- A block of bytes that is a frame: its marker, and its length, which leaves room for a
header. -/
structure IsFrame (d : SockDefs) (f : Bytes) : Prop where
  head : readInt f = d.PACK_HEAD
  len : readInt (f.drop 4) = f.length
  header : d.overhead ≤ f.length

/-- At the start of these bytes, the receiver sees a frame that is complete. -/
structure Complete (d : SockDefs) (b : Bytes) : Prop where
  many : d.overhead ≤ b.length
  head : readInt b = d.PACK_HEAD
  fits : readInt (b.drop 4) ≤ b.length

/-- Behind some frames there is a marker with a length that is too small. -/
def ShortFrame (d : SockDefs) (b : Bytes) : Prop :=
  d.overhead < b.length ∧ ∃ (fs : List Bytes) (rest : Bytes), b = fs.flatten ++ rest ∧
    (∀ f ∈ fs, IsFrame d f) ∧ d.overhead ≤ rest.length ∧ readInt rest = d.PACK_HEAD ∧
    readInt (rest.drop 4) < d.overhead

/-- The loop is at a complete frame. The bytes `b` are to come, of `total` in all. -/
structure RecvLoop.At (d : SockDefs) (total : ℕ) (b : Bytes) (l : RecvLoop) : Prop where
  unread : l.rx.unread l.offset = b
  room : l.offset + l.rx.remind_buf_size ≤ l.rx.rx_buf.length
  total : l.offset + l.rx.remind_buf_size = total
  complete : Complete d b
  sock_len : l.sock_len = readInt (b.drop 4)

section Turn

variable {d : SockDefs} {total : ℕ} {b : Bytes} {l : RecvLoop}

theorem overhead_ge (d : SockDefs) : 8 ≤ d.overhead := Nat.le_add_right _ _

/-- What is read at `offset` is read from what is to come. -/
theorem readInt_of_unread {rx : SockRx} {offset : ℕ}
    (hroom : offset + rx.remind_buf_size ≤ rx.rx_buf.length) (h8 : 8 ≤ rx.remind_buf_size) :
    readInt (rx.rx_buf.drop offset) = readInt (rx.unread offset) ∧
      readInt (rx.rx_buf.drop (offset + 4)) = readInt ((rx.unread offset).drop 4) := by
  have hlen := unread_length hroom
  have hbuf : rx.rx_buf.drop offset
      = rx.unread offset ++ (rx.rx_buf.drop offset).drop rx.remind_buf_size :=
    (List.take_append_drop _ _).symm
  constructor
  · rw [hbuf, readInt_append (by omega)]
  · rw [← List.drop_drop, hbuf, List.drop_append_of_le_length (by omega)]
    exact readInt_append (by rw [List.length_drop]; omega) _

theorem RecvLoop.At.remind (h : l.At d total b) : l.rx.remind_buf_size = b.length := by
  rw [← h.unread, unread_length h.room]

/-- A turn at a frame with a header takes the frame off the front, and the loop goes on exactly
if another complete one follows. -/
theorem RecvLoop.At.turn (h : l.At d total b) (hover : d.overhead ≤ l.sock_len) :
    (¬ Complete d (b.drop l.sock_len.toNat) ∧
      ∃ r, client_recv_msg.turn d l = .inl r ∧ r.2 ≠ .fault) ∨
    ∃ l', client_recv_msg.turn d l = .inr l' ∧ l'.At d total (b.drop l.sock_len.toNat) := by
  have hremind := h.remind
  have hfits : l.sock_len ≤ l.rx.remind_buf_size := by
    rw [hremind, h.sock_len]
    exact h.complete.fits
  obtain ⟨m, hput⟩ : ∃ m, jrd_put_data_to_web_tx_q d (l.rx.rx_buf.drop (l.offset + 8))
      (l.sock_len - 8) = .ok m := by
    unfold jrd_put_data_to_web_tx_q
    unfold SockDefs.overhead at hover
    push_cast at hover
    rw [if_neg (by omega), if_neg (by omega)]
    exact ⟨_, rfl⟩
  -- What is to come after the frame.
  have hrest : (l.rx.took m l.sock_len).unread (l.offset + l.sock_len.toNat)
      = b.drop l.sock_len.toNat := by
    rw [← h.unread]
    unfold SockRx.unread SockRx.took
    dsimp only
    rw [List.drop_take, List.drop_drop]
  have hroom : l.offset + l.sock_len.toNat + (l.rx.took m l.sock_len).remind_buf_size
      ≤ (l.rx.took m l.sock_len).rx_buf.length := took_room m hfits h.room
  have htotal : l.offset + l.sock_len.toNat + (l.rx.took m l.sock_len).remind_buf_size = total := by
    rw [← h.total]
    show l.offset + l.sock_len.toNat + (l.rx.remind_buf_size - l.sock_len.toNat) = _
    omega
  have hlen := unread_length hroom
  rw [hrest] at hlen
  have hturn := turn_ok hfits hput
  have h8 := overhead_ge d
  rw [hturn]
  by_cases hlittle : (l.rx.took m l.sock_len).remind_buf_size < d.overhead
  · left
    refine ⟨fun hc => ?_, ?_⟩
    · have := hc.many
      omega
    · by_cases hzero : (l.rx.took m l.sock_len).remind_buf_size = 0
      · rw [if_pos hzero]
        exact ⟨_, rfl, by simp⟩
      · rw [if_neg hzero, if_pos hlittle]
        exact ⟨_, rfl, by simp⟩
  · obtain ⟨hread, hread4⟩ := readInt_of_unread hroom (by omega)
    rw [hrest] at hread hread4
    rw [if_neg (by omega), if_neg hlittle, hread, hread4]
    by_cases hhead : readInt (b.drop l.sock_len.toNat) = d.PACK_HEAD
    · rw [if_neg (not_not.mpr hhead)]
      by_cases hshort : ((l.rx.took m l.sock_len).remind_buf_size : ℤ)
          < readInt ((b.drop l.sock_len.toNat).drop 4)
      · left
        rw [if_pos hshort]
        refine ⟨fun hc => ?_, _, rfl, by simp⟩
        have hle := hc.fits
        rw [hlen] at hle
        exact absurd hshort (not_lt.mpr hle)
      · right
        rw [if_neg hshort]
        have hfits' : readInt ((b.drop l.sock_len.toNat).drop 4)
            ≤ ((b.drop l.sock_len.toNat).length : ℤ) := by
          rw [hlen]
          exact not_lt.mp hshort
        exact ⟨_, rfl, hrest, hroom, htotal, ⟨by omega, hhead, hfits'⟩, rfl⟩
    · left
      rw [if_pos hhead]
      exact ⟨fun hc => hhead hc.head, _, rfl, by simp⟩

/-- The loop is entered exactly if there is more than a header, and a complete frame. -/
theorem enter_inr {rx : SockRx} (hwf : rx.WF) {chunk : Bytes} (hchunk : Receivable rx chunk)
    (h : client_recv_msg.enter d rx chunk = .inr l) :
    d.overhead < (rx.left ++ chunk).length ∧
      l.At d (rx.remind_buf_size + chunk.length) (rx.left ++ chunk) := by
  obtain ⟨hunread, hsize, hfits⟩ := append_left hwf hchunk
  have hroom : 0 + (rx.append chunk).remind_buf_size ≤ (rx.append chunk).rx_buf.length := by omega
  have hlen := unread_length hroom
  rw [hunread] at hlen
  have h8 := overhead_ge d
  unfold client_recv_msg.enter at h
  dsimp only at h
  split_ifs at h with hlittle hhead hshort
  obtain ⟨hread, hread4⟩ := readInt_of_unread hroom (by omega)
  rw [hunread, List.drop_zero] at hread
  rw [hunread, Nat.zero_add] at hread4
  rw [hread] at hhead
  rw [hread4] at hshort h
  rw [← Sum.inr.inj h]
  refine ⟨by omega, hunread, hroom, ?_, ⟨by omega, not_not.mp hhead, ?_⟩, rfl⟩
  · exact Nat.zero_add _
  · rw [hlen]
    exact not_lt.mp hshort

theorem enter_of_complete {rx : SockRx} (hwf : rx.WF) {chunk : Bytes} (hchunk : Receivable rx chunk)
    (hmore : d.overhead < (rx.left ++ chunk).length) (hc : Complete d (rx.left ++ chunk)) :
    ∃ l, client_recv_msg.enter d rx chunk = .inr l := by
  obtain ⟨hunread, hsize, hfits⟩ := append_left hwf hchunk
  have hroom : 0 + (rx.append chunk).remind_buf_size ≤ (rx.append chunk).rx_buf.length := by omega
  have hlen := unread_length hroom
  rw [hunread] at hlen
  have h8 := overhead_ge d
  obtain ⟨hread, hread4⟩ := readInt_of_unread hroom (by omega)
  rw [hunread, List.drop_zero] at hread
  rw [hunread, Nat.zero_add] at hread4
  have hfit := hc.fits
  rw [hlen] at hfit
  unfold client_recv_msg.enter
  dsimp only
  rw [if_neg (by omega), hread, if_neg (not_not.mpr hc.head), hread4, if_neg (not_lt.mpr hfit)]
  exact ⟨_, rfl⟩

/-- The first bytes of a frame that something follows. -/
theorem IsFrame.append {f : Bytes} (h : IsFrame d f) (more : Bytes) :
    Complete d (f ++ more) ∧ readInt ((f ++ more).drop 4) = f.length := by
  have h8 := overhead_ge d
  have hheader := h.header
  have hlen : readInt ((f ++ more).drop 4) = f.length := by
    rw [List.drop_append_of_le_length (by omega), readInt_append (by rw [List.length_drop]; omega)]
    exact h.len
  refine ⟨⟨?_, ?_, ?_⟩, hlen⟩
  · rw [List.length_append]
    omega
  · rw [readInt_append (by omega)]
    exact h.head
  · rw [hlen, List.length_append]
    push_cast
    omega

/-- Frames and something complete behind them are complete. -/
theorem complete_frames {fs : List Bytes} (hfs : ∀ f ∈ fs, IsFrame d f) {rest : Bytes}
    (hrest : Complete d rest) : Complete d (fs.flatten ++ rest) := by
  rcases fs with _ | ⟨f, fs⟩
  · exact hrest
  · rw [List.flatten_cons, List.append_assoc]
    exact ((hfs f (by simp)).append _).1

/-- The loop passes over frames. -/
theorem visits_frames {fs : List Bytes} (hfs : ∀ f ∈ fs, IsFrame d f) {rest : Bytes}
    (hrest : Complete d rest) (h : l.At d total (fs.flatten ++ rest)) :
    ∃ l', Visits (client_recv_msg.turn d) l l' ∧ l'.At d total rest := by
  induction fs generalizing l with
  | nil => exact ⟨l, Relation.ReflTransGen.refl, h⟩
  | cons f fs ih =>
      have hf := hfs f (by simp)
      have hfs' : ∀ f' ∈ fs, IsFrame d f' := fun f' hf' => hfs f' (List.mem_cons_of_mem f hf')
      rw [List.flatten_cons, List.append_assoc] at h
      have hlen : l.sock_len = f.length := h.sock_len.trans (hf.append _).2
      have hover : (d.overhead : ℤ) ≤ l.sock_len := by
        rw [hlen]
        exact Int.ofNat_le.mpr hf.header
      have hdrop : (f ++ (fs.flatten ++ rest)).drop l.sock_len.toNat = fs.flatten ++ rest := by
        rw [hlen, Int.toNat_natCast, List.drop_left]
      rcases h.turn hover with ⟨hno, -⟩ | ⟨l', hturn, hat⟩
      · rw [hdrop] at hno
        exact absurd (complete_frames hfs' hrest) hno
      · rw [hdrop] at hat
        obtain ⟨l'', hvisits, hat'⟩ := ih hfs' hat
        exact ⟨l'', Relation.ReflTransGen.head hturn hvisits, hat'⟩

/-- The loop has passed over some frames of `b`. -/
def RecvLoop.Behind (d : SockDefs) (b : Bytes) (l : RecvLoop) : Prop :=
  ∃ (fs : List Bytes) (rest : Bytes), b = fs.flatten ++ rest ∧ (∀ f ∈ fs, IsFrame d f) ∧
    l.At d b.length rest

theorem RecvLoop.Behind.overhead_le (h : l.Behind d b) (hno : ¬ ShortFrame d b)
    (hmore : d.overhead < b.length) : d.overhead ≤ l.sock_len := by
  obtain ⟨fs, rest, hb, hfs, hat⟩ := h
  by_contra hlt
  rw [hat.sock_len] at hlt
  exact hno ⟨hmore, fs, rest, hb, hfs, hat.complete.many, hat.complete.head, not_le.mp hlt⟩

theorem RecvLoop.Behind.turn (h : l.Behind d b) (hno : ¬ ShortFrame d b)
    (hmore : d.overhead < b.length) :
    (∃ r, client_recv_msg.turn d l = .inl r ∧ r.2 ≠ .fault) ∨
      ∃ l', client_recv_msg.turn d l = .inr l' ∧ l'.Behind d b := by
  have hover := h.overhead_le hno hmore
  obtain ⟨fs, rest, hb, hfs, hat⟩ := h
  rcases hat.turn hover with ⟨-, hr⟩ | ⟨l', hturn, hat'⟩
  · exact Or.inl hr
  · right
    refine ⟨l', hturn, fs ++ [rest.take l.sock_len.toNat], rest.drop l.sock_len.toNat, ?_, ?_, hat'⟩
    · rw [List.flatten_append, List.flatten_singleton, List.append_assoc, List.take_append_drop]
      exact hb
    · -- What has been taken is a frame.
      have h8 := overhead_ge d
      have hfits := hat.complete.fits
      rw [← hat.sock_len] at hfits
      have hlen : (rest.take l.sock_len.toNat).length = l.sock_len.toNat := by
        rw [List.length_take]
        omega
      have hhead : readInt (rest.take l.sock_len.toNat) = readInt rest := by
        rw [← readInt_append (b := rest.take l.sock_len.toNat) (by omega)
          (rest.drop l.sock_len.toNat), List.take_append_drop]
      have hlen4 : readInt ((rest.take l.sock_len.toNat).drop 4) = readInt (rest.drop 4) := by
        rw [← readInt_append (b := (rest.take l.sock_len.toNat).drop 4)
          (by rw [List.length_drop]; omega) (rest.drop l.sock_len.toNat),
          ← List.drop_append_of_le_length (by omega), List.take_append_drop]
      intro f hf
      rcases List.mem_append.mp hf with hf | hf
      · exact hfs f hf
      · rw [List.mem_singleton.mp hf]
        refine ⟨hhead.trans hat.complete.head, ?_, by omega⟩
        rw [hlen4, hlen, ← hat.sock_len]
        omega

/-- **One call.** It is safe exactly if what it finds in the buffer has no short frame in it. -/
theorem callSafe_iff {rx : SockRx} (hwf : rx.WF) {chunk : Bytes} (hchunk : Receivable rx chunk) :
    CallSafe d rx chunk ↔ ¬ ShortFrame d (rx.left ++ chunk) := by
  constructor
  · rintro hsafe ⟨hmore, fs, rest, hb, hfs, hmany, hhead, hshort⟩
    have hrest : Complete d rest :=
      ⟨hmany, hhead, hshort.le.trans (Int.ofNat_le.mpr hmany)⟩
    obtain ⟨l, hl⟩ := enter_of_complete hwf hchunk hmore (hb ▸ complete_frames hfs hrest)
    obtain ⟨-, hat⟩ := enter_inr hwf hchunk hl
    rw [hb] at hat
    obtain ⟨l', hvisits, hat'⟩ := visits_frames hfs hrest hat
    -- The short frame is handed on.
    have hfits : l'.sock_len ≤ l'.rx.remind_buf_size := by
      rw [hat'.remind, hat'.sock_len]
      exact hrest.fits
    have hover := ((hsafe l hl).2 l' hvisits hfits).1
    rw [hat'.sock_len] at hover
    exact absurd hshort (not_lt.mpr hover)
  · intro hno l hl
    obtain ⟨hmore, hat⟩ := enter_inr hwf hchunk hl
    have htotal : rx.remind_buf_size + chunk.length = (rx.left ++ chunk).length := by
      rw [List.length_append, left_length hwf]
    rw [htotal] at hat ⊢
    have hstart : l.Behind d (rx.left ++ chunk) := ⟨[], _, rfl, nofun, hat⟩
    have hvisited : ∀ l', Visits (client_recv_msg.turn d) l l' →
        l'.Behind d (rx.left ++ chunk) := by
      intro l' hvisits
      refine hvisits.invariant (fun s t hs hst => ?_) hstart
      rcases hs.turn hno hmore with ⟨r, hr, -⟩ | ⟨t', ht', hbehind⟩
      · rw [hst] at hr
        cases hr
      · rw [hst] at ht'
        rw [Sum.inr.inj ht']
        exact hbehind
    refine ⟨?_, ?_⟩
    · have hends := client_recv_msg_ends d rx chunk
      rw [hl] at hends
      refine ⟨_, hends, ?_⟩
      obtain ⟨t, hvisits, hlast⟩ := hends.last
      rcases (hvisited t hvisits).turn hno hmore with ⟨r, hr, hok⟩ | ⟨t', ht', -⟩
      · rw [hlast] at hr
        rw [Sum.inl.inj hr]
        exact hok
      · rw [hlast] at ht'
        cases ht'
    · intro l' hvisits hfits
      refine ⟨(hvisited l' hvisits).overhead_le hno hmore, ?_⟩
      obtain ⟨fs, rest, -, -, hat'⟩ := hvisited l' hvisits
      have hend := hat'.total
      omega

end Turn

/-! ## Every call of a run -/

/-- What `recv` can return: some bytes, or 0. -/
inductive RxEvent where
  | got (chunk : Bytes)
  | closed
  deriving DecidableEq, Repr

def SockRx.event (d : SockDefs) (rx : SockRx) : RxEvent → SockRx
  | .got chunk => rx.recv d chunk
  | .closed => rx.peerClosed

/-- A condition on the calls that get some bytes. -/
def OnCalls (C : SockRx → Bytes → Prop) (rx : SockRx) : RxEvent → Prop
  | .got chunk => C rx chunk
  | .closed => True

/-- **Every call of a run.** From whatever is in the buffer and with whatever bytes: all calls are
safe exactly if no call finds a short frame. -/
theorem recv_safe_iff (d : SockDefs) (rx : SockRx) (hwf : rx.WF) (es : List RxEvent)
    (hes : Along (SockRx.event d) (OnCalls Receivable) rx es) :
    Along (SockRx.event d) (OnCalls (CallSafe d)) rx es ↔
      Along (SockRx.event d) (OnCalls fun rx chunk => ¬ ShortFrame d (rx.left ++ chunk)) rx es := by
  have hwfs : Along (SockRx.event d) (fun rx e => rx.WF ∧ OnCalls Receivable rx e) rx es := by
    refine hes.with_invariant (fun rx e hwf hrecv => ?_) hwf
    rcases e with chunk | _
    · exact (client_recv_msg_keeps d hwf hrecv).wf
    · exact ⟨hwf.size, hwf.fits⟩
  refine along_congr _ (fun rx e h => ?_) hwfs
  rcases e with chunk | _
  · exact callSafe_iff h.1 h.2
  · exact Iff.rfl

/-! ## A peer that keeps to the format -/

/-- Frames as `client_send_msg` makes them are never short, wherever the stream is cut. -/
theorem frames_not_short {d : SockDefs} {fs : List Bytes} (hfs : ∀ f ∈ fs, IsFrame d f)
    {rest future : Bytes} (hmany : d.overhead ≤ rest.length) {ms : List SockMsg}
    (hms : ∀ m ∈ ms, Sendable d m)
    (hstream : fs.flatten ++ rest ++ future = stream (client_send_msg d) ms) :
    ¬ readInt (rest.drop 4) < d.overhead := by
  have h8 := overhead_ge d
  induction fs generalizing ms with
  | nil =>
      rw [List.flatten_nil, List.nil_append] at hstream
      rcases ms with _ | ⟨m, ms⟩
      · have hnil : rest = [] := (List.append_eq_nil_iff.mp hstream).1
        rw [hnil, List.length_nil] at hmany
        omega
      · have hm := hms m (by simp)
        have hover := hm.overhead_lt
        have hlen := (readInt_frame hm (by omega) hstream []).2
        rw [List.append_nil] at hlen
        rw [hlen]
        exact not_lt.mpr (Int.ofNat_le.mpr hover.le)
  | cons f fs ih =>
      have hf := hfs f (by simp)
      have hheader := hf.header
      rw [List.flatten_cons, List.append_assoc, List.append_assoc] at hstream
      rcases ms with _ | ⟨m, ms⟩
      · have hnil : f = [] := (List.append_eq_nil_iff.mp hstream).1
        rw [hnil, List.length_nil] at hheader
        omega
      · have hm := hms m (by simp)
        -- The first of the frames is that of `m`, since their lengths are read alike.
        have hlen := (readInt_frame hm (by omega) hstream []).2
        rw [List.append_nil, hf.len, Int.natCast_inj] at hlen
        rw [stream_cons] at hstream
        obtain ⟨-, hrest⟩ := List.append_inj hstream hlen
        rw [← List.append_assoc] at hrest
        exact ih (fun f' hf' => hfs f' (List.mem_cons_of_mem f hf'))
          (fun m' hm' => hms m' (List.mem_cons_of_mem m hm')) hrest

theorem stream_not_short {d : SockDefs} {ms : List SockMsg} (hms : ∀ m ∈ ms, Sendable d m)
    {b future : Bytes} (hstream : b ++ future = stream (client_send_msg d) ms) :
    ¬ ShortFrame d b := by
  rintro ⟨-, fs, rest, hb, hfs, hmany, -, hshort⟩
  rw [hb] at hstream
  exact frames_not_short hfs hmany hms hstream hshort

/-- As long as the peer sends frames that the receiver has room for, all calls are safe. -/
theorem stream_calls_safe {d : SockDefs} {rx_buf : Bytes}
    (hbuf : rx_buf.length = JRD_SOCK_WEB_RX_BUF_SIZE) {ms : List SockMsg}
    (hms : ∀ m ∈ ms, Sendable d m) {chunks : List Bytes} {future : Bytes}
    (hstream : chunks.flatten ++ future = stream (client_send_msg d) ms)
    (hchunks : Along (SockRx.recv d) Receivable (SockRx.init rx_buf) chunks) :
    Along (SockRx.recv d) (CallSafe d) (SockRx.init rx_buf) chunks := by
  have hstart := RxInv.start hms (init_wf hbuf) rfl rfl
  rw [along_iff]
  rintro pre chunk post rfl
  rw [along_append] at hchunks
  obtain ⟨hpre, hchunk, -⟩ := hchunks
  have hcut : [] ++ pre.flatten ++ (chunk ++ (post.flatten ++ future))
      = stream (client_send_msg d) ms := by
    rw [← hstream, List.flatten_append, List.flatten_cons]
    simp only [List.append_assoc, List.nil_append]
  have hinv := hstart.run hms hpre hcut
  rw [callSafe_iff hinv.wf hchunk]
  -- What is left and the chunk are the beginning of the frames that are not done.
  obtain ⟨done, rest, hsplit, hgot, -, -⟩ := hinv.split
  rw [hgot, hsplit, stream_append, List.append_assoc] at hcut
  have hrest : (run (SockRx.recv d) (SockRx.init rx_buf) pre).left ++ chunk
      ++ (post.flatten ++ future) = stream (client_send_msg d) rest := by
    rw [List.append_assoc]
    exact List.append_cancel_left hcut
  exact stream_not_short (fun m hm => hms m (by rw [hsplit]; simp [hm])) hrest

/-- One frame, and the peer hangs up. -/
theorem recv_safe_one_frame :
    Along (SockRx.event coreDefs) (OnCalls (CallSafe coreDefs)) (SockRx.init zeroBuf)
      [.got (client_send_msg coreDefs (textMsg "one")), .closed] := by
  have hrecv : Receivable (SockRx.init zeroBuf) (client_send_msg coreDefs (textMsg "one")) := by
    decide +kernel
  refine (recv_safe_iff coreDefs (SockRx.init zeroBuf) (init_wf (by decide +kernel))
    [.got (client_send_msg coreDefs (textMsg "one")), .closed] ⟨hrecv, trivial, trivial⟩).mpr
    ⟨?_, trivial, trivial⟩
  have hms : ∀ m ∈ [textMsg "one"], Sendable coreDefs m := by decide +kernel
  apply stream_not_short hms
  show [] ++ client_send_msg coreDefs (textMsg "one") ++ [] = _
  rw [List.nil_append, stream_cons, stream_nil]

/-- The marker, the length 20, and some zeros: more bytes than a header has. -/
def tinyFrame : Bytes := intBytes 0x7061636B ++ intBytes 20 ++ List.replicate 40 0

/-- A frame that says it is 20 bytes long is handed on. -/
theorem tiny_frame_handed_on :
    ¬ ∀ (d : SockDefs) (rx : SockRx) (es : List RxEvent), rx.WF →
      Along (SockRx.event d) (OnCalls Receivable) rx es →
      Along (SockRx.event d) (OnCalls (CallSafe d)) rx es := by
  intro hall
  have hrecv : Receivable (SockRx.init zeroBuf) tinyFrame := by decide +kernel
  have hsafe := (hall coreDefs (SockRx.init zeroBuf) [.got tinyFrame] (init_wf (by decide +kernel))
    ⟨hrecv, trivial⟩).1
  have henter : client_recv_msg.enter coreDefs (SockRx.init zeroBuf) tinyFrame
      = .inr ⟨(SockRx.init zeroBuf).append tinyFrame, 0, 20⟩ := by decide +kernel
  have hover := ((hsafe _ henter).2 _ Relation.ReflTransGen.refl (by decide +kernel)).1
  revert hover
  decide +kernel

end TestCore.Webs
