/-
The session manager of `security.c`: the `EGOSM_*` functions over the session
table.

A session is one entry of a symbol table. Its key is the peer's address and
browser family, `192.168.1.234_1`; its value is an integer whose low byte is the
session id and whose next byte counts the timer ticks since the last heartbeat.
The readers compare the low byte with two codes only (failed, somebody else has
logged in) and take everything else for a login, so which integers the writers
store decides who is logged in. Those integers are what this file is about: what
each operation does to the table, in terms of `lookup`, and what each reader sees.

The last part runs the operations in any order for any peers. A peer seen as
logged in owes that to a success stored for it earlier and not ended since --
unless one of two operations was applied where its callers never apply it:
`EGOSM_setLoginFailCnt` to a peer without an entry stores the id 0, and
`EGOSM_resetSessionHeartbeat` to a failed entry stores the success id.
-/
import TestCore.Webs.Base
import TestCore.Lib.Run

set_option autoImplicit false

namespace TestCore.Webs

open TestCore.Lib

/-! ## Constants and the packed word -/

/-- Names a scan can collect before it stops. -/
def MAX_COUNT_FOR_DELETE_ITEM : ℕ := 32
/-- Size of the slot a collected name is copied to. -/
def MAX_LENGTH_OF_ITEMNAME : ℕ := 24
def SESSIONID_FOR_LOGOUT : ℕ := 0
def SESSIONID_FOR_LOGIN_FAILED : ℕ := 1
def SESSIONID_FOR_HAS_LOGIN : ℕ := 2
def SESSIONID_FOR_LOGIN_SUCCESS : ℕ := 5
/-- Ticks without a heartbeat after which a session is deleted. -/
def SESSION_TIMEOUT_COUNT : ℕ := 6
/-- `calcPrime(MAX_COUNT_OF_SESSION)`, the largest prime not above 256. -/
def SESSION_HASH_SIZE : ℕ := 251

/-- `sp->content.value.integer` and `sp->arg`. -/
structure SessionEntry where
  integer : ℕ
  arg : Int
  deriving DecidableEq, Repr

/-- `content.value.integer & 0xFF`. -/
def SessionEntry.id (e : SessionEntry) : ℕ := e.integer &&& 0xFF

/-- `(content.value.integer >> 8) & 0xFF`. -/
def SessionEntry.timeout (e : SessionEntry) : ℕ := (e.integer >>> 8) &&& 0xFF

theorem SessionEntry.id_eq (e : SessionEntry) : e.id = e.integer % 256 :=
  Nat.and_two_pow_sub_one_eq_mod e.integer 8

theorem SessionEntry.timeout_eq (e : SessionEntry) : e.timeout = e.integer / 256 % 256 := by
  have h := Nat.and_two_pow_sub_one_eq_mod (e.integer >>> 8) 8
  have hdiv : e.integer >>> 8 = e.integer / 256 := Nat.shiftRight_eq_div_pow e.integer 8
  rw [hdiv] at h
  unfold SessionEntry.timeout
  rw [hdiv]
  exact h

/-- The session table, or `none` for `INVALID_SYM_FD`. -/
abbrev SessionTable := Table Bytes SessionEntry
abbrev Sessions := Option SessionTable

/-- `EGOSM_Init`. -/
def EGOSM_Init : Sessions := some Table.empty

/-! ## Session keys -/

/-- `__SM_getBrowserType`. An Edge user agent is filed under Chrome. -/
def SM_getBrowserType (wp : WebsRec) : ExploreType :=
  match wp.userAgent with
  | none => .unknown
  | some ua =>
      if strstr ua (bytes "MSIE") then .ie
      else if strstr ua (bytes "Edge") then .chrome
      else if strstr ua (bytes "Firefox") then .firefox
      else if strstr ua (bytes "Opera") || strstr ua (bytes "OPR") then .opera
      else if strstr ua (bytes "Chrome") then .chrome
      else if strstr ua (bytes "Safari") then .safari
      else .unknown

/-- The format `"%s_%d"` of a key; the browser family is one digit. -/
def sessionKey (ip : Bytes) (ty : ExploreType) : Bytes :=
  ip ++ [95, 48 + UInt8.ofNat ty.toNat]

/-- `__SM_getSessionKey` with `SESSION_KEY_FORMAT == SESSION_FORMAT_IP_IETYPE`. -/
def SM_getSessionKey (wp : WebsRec) : Bytes := sessionKey wp.ipaddr (SM_getBrowserType wp)

theorem SM_getSessionKey_ne_nil (wp : WebsRec) : SM_getSessionKey wp ≠ [] := by
  simp [SM_getSessionKey, sessionKey]

theorem SM_getSessionKey_length (wp : WebsRec) :
    (SM_getSessionKey wp).length = wp.ipaddr.length + 2 := by
  simp [SM_getSessionKey, sessionKey]

/-! ## The operations -/

/-- `EGOSM_getLoginFailCnt`. -/
def EGOSM_getLoginFailCnt (s : Sessions) (wp : WebsRec) : Int :=
  match s with
  | none => 0
  | some t => ((symLookup t (SM_getSessionKey wp)).map SessionEntry.arg).getD 0

/-- The names `EGOSM_setSessionInfo` collects for a forced login: the first
`MAX_COUNT_FOR_DELETE_ITEM` entries with the success id, each cut to the slot. -/
def forcedOut (t : SessionTable) : List Bytes :=
  ((t.entries.filter fun p => p.2.id = SESSIONID_FOR_LOGIN_SUCCESS).take
    MAX_COUNT_FOR_DELETE_ITEM).map fun p => p.1.take (MAX_LENGTH_OF_ITEMNAME - 1)

/-- `symDelete` for each name of a list; a name without an entry changes nothing. -/
def deleteAll (t : SessionTable) (names : List Bytes) : SessionTable :=
  names.foldl (fun t n => (symDelete t n).1) t

/-- `EGOSM_setSessionInfo`. -/
def EGOSM_setSessionInfo (s : Sessions) (wp : WebsRec) (bloginFailed : LoginStatus) : Sessions :=
  let pstrKey := SM_getSessionKey wp
  let cnt := EGOSM_getLoginFailCnt s wp
  s.map fun t =>
    match bloginFailed with
    | .fail => symEnter SESSION_HASH_SIZE t pstrKey ⟨SESSIONID_FOR_LOGIN_FAILED, cnt⟩
    | .otherHasLogin => symEnter SESSION_HASH_SIZE t pstrKey ⟨SESSIONID_FOR_HAS_LOGIN, cnt⟩
    | .success => symEnter SESSION_HASH_SIZE t pstrKey ⟨SESSIONID_FOR_LOGIN_SUCCESS, cnt⟩
    | .forceLoginSuccess =>
        symEnter SESSION_HASH_SIZE (deleteAll t (forcedOut t)) pstrKey
          ⟨SESSIONID_FOR_LOGIN_SUCCESS, cnt⟩

/-- `EGOSM_clearSessionInfo`. -/
def EGOSM_clearSessionInfo (s : Sessions) (wp : WebsRec) : Sessions × Int :=
  match s with
  | none => (none, -1)
  | some t =>
      let r := symDelete t (SM_getSessionKey wp)
      (some r.1, r.2)

/-- `EGOSM_getSessionID`. -/
def EGOSM_getSessionID (s : Sessions) (wp : WebsRec) : ℕ :=
  match s with
  | none => SESSIONID_FOR_LOGIN_SUCCESS
  | some t =>
      match symLookup t (SM_getSessionKey wp) with
      | none => SESSIONID_FOR_LOGOUT
      | some e =>
          if e.id = SESSIONID_FOR_LOGIN_FAILED then SESSIONID_FOR_LOGIN_FAILED
          else if e.id = SESSIONID_FOR_HAS_LOGIN then SESSIONID_FOR_HAS_LOGIN
          else SESSIONID_FOR_LOGIN_SUCCESS

/-- `EGOSM_isUserLogined`. A failed entry is deleted by being asked about. -/
def EGOSM_isUserLogined (s : Sessions) (wp : WebsRec) : Sessions × ℕ :=
  match s with
  | none => (none, 1)
  | some t =>
      match symLookup t (SM_getSessionKey wp) with
      | none => (some t, 0)
      | some e =>
          if e.id = SESSIONID_FOR_LOGIN_FAILED then
            (some (symDelete t (SM_getSessionKey wp)).1, 0)
          else if e.id = SESSIONID_FOR_HAS_LOGIN then
            (some (symDelete t (SM_getSessionKey wp)).1, 0)
          else (some t, 1)

/-- `EGOSM_getPeerInfo`. -/
def EGOSM_getPeerInfo (wp : WebsRec) : Bytes × ExploreType := (wp.ipaddr, SM_getBrowserType wp)

/-- `EGOSM_setLoginFailCnt`: the whole integer becomes the id `EGOSM_getSessionID`
reports, so the tick count goes back to zero. -/
def EGOSM_setLoginFailCnt (s : Sessions) (wp : WebsRec) (cnt : Int) : Sessions :=
  s.map fun t =>
    symEnter SESSION_HASH_SIZE t (SM_getSessionKey wp) ⟨EGOSM_getSessionID (some t) wp, cnt⟩

/-- `EGOSM_resetSessionHeartbeat`. -/
def EGOSM_resetSessionHeartbeat (s : Sessions) (wp : WebsRec) : Sessions × Int :=
  match s with
  | none => (none, -1)
  | some t =>
      match symLookup t (SM_getSessionKey wp) with
      | none => (some t, 0)
      | some e =>
          (some (t.set (SM_getSessionKey wp) { e with integer := SESSIONID_FOR_LOGIN_SUCCESS }), 1)

/-! ### `EGOSM_processSessionTimeOut`

One pass over the enumeration counts every entry up in place and collects the
names whose count reaches `SESSION_TIMEOUT_COUNT`; the pass ends early once
`MAX_COUNT_FOR_DELETE_ITEM` names are collected, so later entries are not counted
at all on that tick. The collected names are deleted afterwards, and the check
timer is stopped once for each of them. -/

/-- `((nTimeout << 8) & 0xff00) + sessid` with `nTimeout` one higher than stored. -/
def SessionEntry.bump (e : SessionEntry) : SessionEntry :=
  { e with integer := (((e.timeout + 1) <<< 8) &&& 0xff00) + e.id }

/-- The scanning loop: the table so far, and the names collected so far. -/
def timeoutScan : List (Bytes × SessionEntry) → SessionTable × List Bytes → SessionTable × List Bytes
  | [], acc => acc
  | (name, e) :: rest, (t, del) =>
      if del.length < MAX_COUNT_FOR_DELETE_ITEM then
        let t' := t.set name e.bump
        if SESSION_TIMEOUT_COUNT ≤ e.timeout + 1 then
          timeoutScan rest (t', del ++ [name.take (MAX_LENGTH_OF_ITEMNAME - 1)])
        else timeoutScan rest (t', del)
      else (t, del)

/-- `EGOSM_processSessionTimeOut`: the new table, and whether `set_timer_clean`
was called. -/
def EGOSM_processSessionTimeOut (s : Sessions) : Sessions × Bool :=
  match s with
  | none => (none, true)
  | some t =>
      let r := timeoutScan t.entries (t, [])
      (some (deleteAll r.1 r.2), !r.2.isEmpty)

/-! ## What the operations do to a lookup -/

theorem lookup_deleteAll (names : List Bytes) (t : SessionTable) (k : Bytes) :
    (deleteAll t names).lookup k = if k ∈ names then none else t.lookup k := by
  unfold deleteAll
  induction names generalizing t with
  | nil => simp
  | cons a names ih =>
      rw [List.foldl_cons, ih, lookup_symDelete]
      by_cases h : k ∈ names
      · simp [h]
      · by_cases ha : k = a <;> simp [h, ha]

theorem symLookup_key (t : SessionTable) (wp : WebsRec) :
    symLookup t (SM_getSessionKey wp) = t.lookup (SM_getSessionKey wp) :=
  symLookup_of_ne_nil t (SM_getSessionKey_ne_nil wp)

/-- Counting up moves only the tick byte. -/
theorem SessionEntry.bump_integer (e : SessionEntry) :
    e.bump.integer = (e.timeout + 1) % 256 * 256 + e.id := by
  have hmask : ((e.timeout + 1) <<< 8) &&& 0xff00 = (e.timeout + 1) % 256 * 256 := by
    have h := Nat.shiftLeft_and_distrib (a := e.timeout + 1) (b := 0xff) (i := 8)
    have h255 := Nat.and_two_pow_sub_one_eq_mod (e.timeout + 1) 8
    have hff : (0xff : ℕ) <<< 8 = 0xff00 := by decide
    rw [hff] at h
    rw [← h, Nat.shiftLeft_eq]
    exact congrArg (· * 2 ^ 8) h255
  unfold SessionEntry.bump
  dsimp only
  rw [hmask]

theorem SessionEntry.bump_id (e : SessionEntry) : e.bump.id = e.id := by
  have hlt : e.id < 256 := by rw [SessionEntry.id_eq]; omega
  rw [SessionEntry.id_eq e.bump, SessionEntry.bump_integer]
  omega

/-- The scan leaves an entry alone or counts it up, and never adds one. -/
theorem lookup_timeoutScan (es : List (Bytes × SessionEntry)) (t : SessionTable)
    (del : List Bytes) (k : Bytes) :
    (timeoutScan es (t, del)).1.lookup k = t.lookup k ∨
      ∃ e, (k, e) ∈ es ∧ (t.lookup k).isSome ∧
        (timeoutScan es (t, del)).1.lookup k = some e.bump := by
  induction es generalizing t del with
  | nil => exact Or.inl rfl
  | cons p es ih =>
      obtain ⟨name, e⟩ := p
      rw [timeoutScan]
      by_cases hcap : del.length < MAX_COUNT_FOR_DELETE_ITEM
      · rw [if_pos hcap]
        -- Whether or not the name is collected, the rest of the scan starts from
        -- the table with this entry counted up.
        have key : ∀ del', (timeoutScan es (t.set name e.bump, del')).1.lookup k = t.lookup k ∨
            ∃ e', (k, e') ∈ (name, e) :: es ∧ (t.lookup k).isSome ∧
              (timeoutScan es (t.set name e.bump, del')).1.lookup k = some e'.bump := by
          intro del'
          have hset := t.lookup_set name k e.bump
          rcases ih (t.set name e.bump) del' with h | ⟨e', hmem, hsome, h⟩
          · rw [h, hset]
            by_cases hk : k = name
            · rw [if_pos hk]
              rcases hl : t.lookup name with _ | v
              · left
                rw [hk, hl, Option.map_none]
              · right
                refine ⟨e, ?_, ?_, rfl⟩
                · rw [hk]; exact List.mem_cons_self
                · rw [hk, hl]; rfl
            · rw [if_neg hk]
              exact Or.inl rfl
          · right
            refine ⟨e', List.mem_cons_of_mem _ hmem, ?_, h⟩
            rw [hset] at hsome
            by_cases hk : k = name
            · rw [if_pos hk, Option.isSome_map] at hsome
              rw [hk]; exact hsome
            · rwa [if_neg hk] at hsome
        dsimp only
        by_cases hout : SESSION_TIMEOUT_COUNT ≤ e.timeout + 1
        · rw [if_pos hout]
          exact key _
        · rw [if_neg hout]
          exact key _
      · rw [if_neg hcap]
        exact Or.inl rfl

/-- **What a tick does to one key.** Its entry is gone, or unchanged, or counted
up; in the last two cases its session id is what it was. -/
theorem lookup_processSessionTimeOut (t : SessionTable) (k : Bytes) {e' : SessionEntry} {t' : SessionTable}
    (ht : (EGOSM_processSessionTimeOut (some t)).1 = some t') (he : t'.lookup k = some e') :
    ∃ e, t.lookup k = some e ∧ e'.id = e.id := by
  unfold EGOSM_processSessionTimeOut at ht
  simp only [Option.some.injEq] at ht
  rw [← ht, lookup_deleteAll] at he
  by_cases hmem : k ∈ (timeoutScan t.entries (t, [])).2
  · rw [if_pos hmem] at he
    cases he
  · rw [if_neg hmem] at he
    rcases lookup_timeoutScan t.entries t [] k with h | ⟨e, hes, -, h⟩
    · exact ⟨e', by rw [← h]; exact he, rfl⟩
    · rw [h, Option.some.injEq] at he
      exact ⟨e, (t.mem_entries k e).mp hes, by rw [← he, SessionEntry.bump_id]⟩

/-! ## What the readers see -/

/-- The entry of a key, if there is a table and the key is in it. -/
def sessionOf (s : Sessions) (k : Bytes) : Option SessionEntry := s.bind fun t => t.lookup k

@[simp] theorem sessionOf_some (t : SessionTable) (k : Bytes) :
    sessionOf (some t) k = t.lookup k := rfl

/-- The entry is one the readers take for a login: its id is neither of the two
failure codes. -/
def Logined (o : Option SessionEntry) : Prop :=
  ∃ e, o = some e ∧ e.id ≠ SESSIONID_FOR_LOGIN_FAILED ∧ e.id ≠ SESSIONID_FOR_HAS_LOGIN

theorem EGOSM_isUserLogined_eq_one (t : SessionTable) (wp : WebsRec) :
    (EGOSM_isUserLogined (some t) wp).2 = 1 ↔ Logined (t.lookup (SM_getSessionKey wp)) := by
  unfold EGOSM_isUserLogined
  dsimp only
  rw [symLookup_key]
  rcases t.lookup (SM_getSessionKey wp) with _ | e
  · simp [Logined]
  · by_cases h1 : e.id = SESSIONID_FOR_LOGIN_FAILED
    · simp [Logined, h1]
    · by_cases h2 : e.id = SESSIONID_FOR_HAS_LOGIN
      · simp [Logined, h2, SESSIONID_FOR_HAS_LOGIN, SESSIONID_FOR_LOGIN_FAILED]
      · simp [Logined, h1, h2]

theorem EGOSM_getSessionID_eq_success (t : SessionTable) (wp : WebsRec) :
    EGOSM_getSessionID (some t) wp = SESSIONID_FOR_LOGIN_SUCCESS ↔
      Logined (t.lookup (SM_getSessionKey wp)) := by
  unfold EGOSM_getSessionID
  dsimp only
  rw [symLookup_key]
  rcases t.lookup (SM_getSessionKey wp) with _ | e
  · simp [Logined, SESSIONID_FOR_LOGOUT, SESSIONID_FOR_LOGIN_SUCCESS]
  · by_cases h1 : e.id = SESSIONID_FOR_LOGIN_FAILED
    · simp [Logined, h1, SESSIONID_FOR_LOGIN_FAILED, SESSIONID_FOR_LOGIN_SUCCESS]
    · by_cases h2 : e.id = SESSIONID_FOR_HAS_LOGIN
      · simp [Logined, h2, SESSIONID_FOR_HAS_LOGIN, SESSIONID_FOR_LOGIN_FAILED,
          SESSIONID_FOR_LOGIN_SUCCESS]
      · simp [Logined, h1, h2]

/-- Being asked about never logs anybody in: the table is as before, or a failed
entry of the asking peer is gone. -/
theorem lookup_isUserLogined {t t' : SessionTable} {wp : WebsRec}
    (ht : (EGOSM_isUserLogined (some t) wp).1 = some t') (k : Bytes) :
    t'.lookup k = t.lookup k ∨
      (k = SM_getSessionKey wp ∧ t'.lookup k = none ∧ ¬ Logined (t.lookup k)) := by
  unfold EGOSM_isUserLogined at ht
  dsimp only at ht
  rw [symLookup_key] at ht
  rcases he : t.lookup (SM_getSessionKey wp) with _ | e
  · rw [he] at ht
    simp only [Option.some.injEq] at ht
    exact Or.inl (by rw [ht])
  · rw [he] at ht
    dsimp only at ht
    -- Both failure codes delete the entry; say so once.
    have hdel : e.id = SESSIONID_FOR_LOGIN_FAILED ∨ e.id = SESSIONID_FOR_HAS_LOGIN →
        (symDelete t (SM_getSessionKey wp)).1 = t' →
        t'.lookup k = t.lookup k ∨
          (k = SM_getSessionKey wp ∧ t'.lookup k = none ∧ ¬ Logined (t.lookup k)) := by
      intro hid heq
      have hl := lookup_symDelete t (SM_getSessionKey wp) k
      rw [heq] at hl
      by_cases hk : k = SM_getSessionKey wp
      · right
        refine ⟨hk, by rw [hl, if_pos hk], ?_⟩
        rw [hk, he]
        rintro ⟨e', hee, h1, h2⟩
        rw [Option.some.injEq] at hee
        subst hee
        rcases hid with h | h
        · exact h1 h
        · exact h2 h
      · left
        rw [hl, if_neg hk]
    by_cases h1 : e.id = SESSIONID_FOR_LOGIN_FAILED
    · rw [if_pos h1, Option.some.injEq] at ht
      exact hdel (Or.inl h1) ht
    · rw [if_neg h1] at ht
      by_cases h2 : e.id = SESSIONID_FOR_HAS_LOGIN
      · rw [if_pos h2, Option.some.injEq] at ht
        exact hdel (Or.inr h2) ht
      · rw [if_neg h2, Option.some.injEq] at ht
        exact Or.inl (by rw [ht])

/-! ## Any sequence of operations -/

/-- One call of the session manager. -/
inductive SmOp where
  | setSessionInfo (wp : WebsRec) (bloginFailed : LoginStatus)
  | clearSessionInfo (wp : WebsRec)
  | setLoginFailCnt (wp : WebsRec) (cnt : Int)
  | resetSessionHeartbeat (wp : WebsRec)
  | isUserLogined (wp : WebsRec)
  | getSessionID (wp : WebsRec)
  | processSessionTimeOut

/-- The table after one call. -/
def smStep (s : Sessions) : SmOp → Sessions
  | .setSessionInfo wp st => EGOSM_setSessionInfo s wp st
  | .clearSessionInfo wp => (EGOSM_clearSessionInfo s wp).1
  | .setLoginFailCnt wp cnt => EGOSM_setLoginFailCnt s wp cnt
  | .resetSessionHeartbeat wp => (EGOSM_resetSessionHeartbeat s wp).1
  | .isUserLogined wp => (EGOSM_isUserLogined s wp).1
  | .getSessionID _ => s
  | .processSessionTimeOut => (EGOSM_processSessionTimeOut s).1

/-- A success is stored for the key. -/
def SmOp.logsIn (k : Bytes) : SmOp → Prop
  | .setSessionInfo wp .success => SM_getSessionKey wp = k
  | .setSessionInfo wp .forceLoginSuccess => SM_getSessionKey wp = k
  | _ => False

/-- The session of the key is cleared, overwritten by a failure status, displaced
by a forced login of another peer, or timed out. -/
def SmOp.endsSession (k : Bytes) (s : Sessions) : SmOp → Prop
  | .clearSessionInfo wp => SM_getSessionKey wp = k
  | .setSessionInfo wp .fail => SM_getSessionKey wp = k
  | .setSessionInfo wp .otherHasLogin => SM_getSessionKey wp = k
  | .setSessionInfo wp .forceLoginSuccess =>
      SM_getSessionKey wp ≠ k ∧
        sessionOf (smStep s (.setSessionInfo wp .forceLoginSuccess)) k = none
  | .processSessionTimeOut => sessionOf (smStep s .processSessionTimeOut) k = none
  | _ => False

/-- The call is one the callers make: the failure count is only written to a peer
that has an entry, and a heartbeat never reaches a failed entry. -/
def SmOp.Guarded (s : Sessions) : SmOp → Prop
  | .setLoginFailCnt wp _ => (sessionOf s (SM_getSessionKey wp)).isSome
  | .resetSessionHeartbeat wp =>
      ∀ e, sessionOf s (SM_getSessionKey wp) = some e →
        e.id ≠ SESSIONID_FOR_LOGIN_FAILED ∧ e.id ≠ SESSIONID_FOR_HAS_LOGIN
  | _ => True

/-- Every operation leaves the table initialised. -/
theorem smStep_isSome {s : Sessions} (hs : s.isSome) (op : SmOp) : (smStep s op).isSome := by
  obtain ⟨t, rfl⟩ := Option.isSome_iff_exists.mp hs
  cases op with
  | setSessionInfo wp st => rfl
  | clearSessionInfo wp => rfl
  | setLoginFailCnt wp cnt => rfl
  | resetSessionHeartbeat wp =>
      show (EGOSM_resetSessionHeartbeat (some t) wp).1.isSome
      unfold EGOSM_resetSessionHeartbeat
      dsimp only
      rcases symLookup t (SM_getSessionKey wp) with _ | e <;> rfl
  | isUserLogined wp =>
      show (EGOSM_isUserLogined (some t) wp).1.isSome
      unfold EGOSM_isUserLogined
      dsimp only
      rcases symLookup t (SM_getSessionKey wp) with _ | e
      · rfl
      · dsimp only
        split_ifs <;> rfl
  | getSessionID wp => rfl
  | processSessionTimeOut => rfl

theorem not_logined_none : ¬ Logined none := by
  rintro ⟨e, he, -⟩
  cases he

theorem not_logined_fail (cnt : Int) : ¬ Logined (some ⟨SESSIONID_FOR_LOGIN_FAILED, cnt⟩) := by
  rintro ⟨e, he, h1, -⟩
  rw [Option.some.injEq] at he
  exact h1 (by rw [← he, SessionEntry.id_eq]; rfl)

theorem not_logined_other (cnt : Int) : ¬ Logined (some ⟨SESSIONID_FOR_HAS_LOGIN, cnt⟩) := by
  rintro ⟨e, he, -, h2⟩
  rw [Option.some.injEq] at he
  exact h2 (by rw [← he, SessionEntry.id_eq]; rfl)

/-- What the two writers of a failure status do to a key that is logged in
afterwards: it is another peer's, and it was logged in before. -/
theorem logined_symEnter {t : SessionTable} {key k : Bytes} {v : SessionEntry}
    (hv : ¬ Logined (some v))
    (h : Logined ((symEnter SESSION_HASH_SIZE t key v).lookup k)) :
    key ≠ k ∧ Logined (t.lookup k) := by
  rw [lookup_symEnter] at h
  by_cases hk : k = key
  · rw [if_pos hk] at h
    exact absurd h hv
  · rw [if_neg hk] at h
    exact ⟨fun hkey => hk hkey.symm, h⟩

/-- A guarded count leaves a key logged in only if it was: the id the peer is
reported with goes back in, and `0` is reported only for a peer without an entry. -/
theorem logined_setLoginFailCnt {t : SessionTable} {wp : WebsRec} {cnt : Int} {k : Bytes}
    (hg : (t.lookup (SM_getSessionKey wp)).isSome)
    (h : Logined (sessionOf (EGOSM_setLoginFailCnt (some t) wp cnt) k)) :
    Logined (t.lookup k) := by
  have h' : Logined ((symEnter SESSION_HASH_SIZE t (SM_getSessionKey wp)
      ⟨EGOSM_getSessionID (some t) wp, cnt⟩).lookup k) := h
  rw [lookup_symEnter] at h'
  by_cases hk : k = SM_getSessionKey wp
  · rw [if_pos hk] at h'
    rw [hk]
    apply (EGOSM_getSessionID_eq_success t wp).mp
    by_contra hne
    -- Not reported as a success, with an entry: one of the two failure codes goes in.
    obtain ⟨e, he⟩ := Option.isSome_iff_exists.mp hg
    have hid : EGOSM_getSessionID (some t) wp = SESSIONID_FOR_LOGIN_FAILED ∨
        EGOSM_getSessionID (some t) wp = SESSIONID_FOR_HAS_LOGIN := by
      have hdef : EGOSM_getSessionID (some t) wp
          = if e.id = SESSIONID_FOR_LOGIN_FAILED then SESSIONID_FOR_LOGIN_FAILED
            else if e.id = SESSIONID_FOR_HAS_LOGIN then SESSIONID_FOR_HAS_LOGIN
            else SESSIONID_FOR_LOGIN_SUCCESS := by
        unfold EGOSM_getSessionID
        dsimp only
        rw [symLookup_key, he]
      rw [hdef] at hne ⊢
      split_ifs at hne ⊢ with h1 h2
      · exact Or.inl rfl
      · exact Or.inr rfl
      · exact absurd rfl hne
    rcases hid with hid | hid
    · rw [hid] at h'
      exact not_logined_fail cnt h'
    · rw [hid] at h'
      exact not_logined_other cnt h'
  · rwa [if_neg hk] at h'

/-- A guarded heartbeat writes the success id only over a login. -/
theorem logined_resetSessionHeartbeat {t : SessionTable} {wp : WebsRec} {k : Bytes}
    (hg : ∀ e, t.lookup (SM_getSessionKey wp) = some e →
      e.id ≠ SESSIONID_FOR_LOGIN_FAILED ∧ e.id ≠ SESSIONID_FOR_HAS_LOGIN)
    (h : Logined (sessionOf (EGOSM_resetSessionHeartbeat (some t) wp).1 k)) :
    Logined (t.lookup k) := by
  unfold EGOSM_resetSessionHeartbeat at h
  dsimp only at h
  rw [symLookup_key] at h
  rcases he : t.lookup (SM_getSessionKey wp) with _ | e
  · rw [he] at h
    exact h
  · rw [he] at h
    by_cases hk : k = SM_getSessionKey wp
    · rw [hk]
      exact ⟨e, he, hg e he⟩
    · rwa [sessionOf_some, Table.lookup_set, if_neg hk] at h

/-- **One guarded call.** A key that is logged in afterwards had a success stored
for it by this very call, or was logged in before and this call did not end it. -/
theorem logined_smStep {s : Sessions} {op : SmOp} {k : Bytes} (hs : s.isSome)
    (hg : op.Guarded s) (h : Logined (sessionOf (smStep s op) k)) :
    op.logsIn k ∨ (Logined (sessionOf s k) ∧ ¬ op.endsSession k s) := by
  obtain ⟨t, rfl⟩ := Option.isSome_iff_exists.mp hs
  cases op with
  | setSessionInfo wp st =>
      cases st with
      | success =>
          by_cases hk : k = SM_getSessionKey wp
          · exact Or.inl hk.symm
          · right
            refine ⟨?_, fun hend => hend⟩
            -- Another peer's success leaves this entry where it was.
            have h' : Logined ((symEnter SESSION_HASH_SIZE t (SM_getSessionKey wp) _).lookup k) := h
            rwa [lookup_symEnter, if_neg hk] at h'
      | fail =>
          have h' := logined_symEnter (not_logined_fail _) h
          exact Or.inr ⟨h'.2, h'.1⟩
      | otherHasLogin =>
          have h' := logined_symEnter (not_logined_other _) h
          exact Or.inr ⟨h'.2, h'.1⟩
      | forceLoginSuccess =>
          by_cases hk : k = SM_getSessionKey wp
          · exact Or.inl hk.symm
          · right
            have hgone : ¬ SmOp.endsSession k (some t) (.setSessionInfo wp .forceLoginSuccess) := by
              rintro ⟨-, hnone⟩
              rw [hnone] at h
              exact not_logined_none h
            have h' : Logined ((symEnter SESSION_HASH_SIZE (deleteAll t (forcedOut t))
                (SM_getSessionKey wp) _).lookup k) := h
            rw [lookup_symEnter, if_neg hk, lookup_deleteAll] at h'
            -- A key that is still there is not among the names that were forced out.
            by_cases hout : k ∈ forcedOut t
            · rw [if_pos hout] at h'
              exact absurd h' not_logined_none
            · rw [if_neg hout] at h'
              exact ⟨h', hgone⟩
  | clearSessionInfo wp =>
      right
      have h' : Logined ((symDelete t (SM_getSessionKey wp)).1.lookup k) := h
      rw [lookup_symDelete] at h'
      by_cases hk : k = SM_getSessionKey wp
      · rw [if_pos hk] at h'
        exact absurd h' not_logined_none
      · rw [if_neg hk] at h'
        exact ⟨h', fun hend => hk hend.symm⟩
  | setLoginFailCnt wp cnt =>
      exact Or.inr ⟨logined_setLoginFailCnt hg h, fun hend => hend⟩
  | resetSessionHeartbeat wp =>
      exact Or.inr ⟨logined_resetSessionHeartbeat hg h, fun hend => hend⟩
  | isUserLogined wp =>
      right
      refine ⟨?_, fun hend => hend⟩
      obtain ⟨t', ht'⟩ := Option.isSome_iff_exists.mp (smStep_isSome hs (.isUserLogined wp))
      have h' : Logined (t'.lookup k) := by rwa [ht'] at h
      -- Being asked about deletes failed entries only.
      rcases lookup_isUserLogined ht' k with heq | ⟨-, hnone, -⟩
      · rwa [heq] at h'
      · rw [hnone] at h'
        exact absurd h' not_logined_none
  | getSessionID wp =>
      exact Or.inr ⟨h, fun hend => hend⟩
  | processSessionTimeOut =>
      right
      obtain ⟨t', ht'⟩ := Option.isSome_iff_exists.mp (smStep_isSome hs .processSessionTimeOut)
      have h' : Logined (t'.lookup k) := by rwa [ht'] at h
      obtain ⟨e', he', h1, h2⟩ := h'
      -- An entry that outlives the tick keeps its id.
      obtain ⟨e, he, hid⟩ := lookup_processSessionTimeOut t k ht' he'
      refine ⟨⟨e, he, by rwa [← hid], by rwa [← hid]⟩, ?_⟩
      intro hend
      have hnone : sessionOf (smStep (some t) .processSessionTimeOut) k = none := hend
      rw [hnone] at h
      exact not_logined_none h

/-- **No session without a login.** After any guarded calls for any peers, a peer
the readers report as logged in has had a success stored for it, and nothing has
ended that session since. -/
theorem logined_since_success (ops : List SmOp)
    (hguard : Along smStep (fun s op => op.Guarded s) EGOSM_Init ops) (wp : WebsRec)
    (h : (EGOSM_isUserLogined (run smStep EGOSM_Init ops) wp).2 = 1 ∨
      EGOSM_getSessionID (run smStep EGOSM_Init ops) wp = SESSIONID_FOR_LOGIN_SUCCESS) :
    Since smStep (SmOp.logsIn (SM_getSessionKey wp))
      (fun s op => op.endsSession (SM_getSessionKey wp) s) EGOSM_Init ops := by
  have hsome : (run smStep EGOSM_Init ops).isSome :=
    run_invariant (I := fun s : Sessions => s.isSome) (fun _ op hs => smStep_isSome hs op) rfl ops
  have hlog : Logined (sessionOf (run smStep EGOSM_Init ops) (SM_getSessionKey wp)) := by
    obtain ⟨t, ht⟩ := Option.isSome_iff_exists.mp hsome
    rw [ht] at h ⊢
    rcases h with h | h
    · exact (EGOSM_isUserLogined_eq_one t wp).mp h
    · exact (EGOSM_getSessionID_eq_success t wp).mp h
  have hC := Along.with_invariant (I := fun s : Sessions => s.isSome)
    (fun _ op hs _ => smStep_isSome hs op) rfl hguard
  have h0 : ¬ Logined (sessionOf EGOSM_Init (SM_getSessionKey wp)) := not_logined_none
  exact since_of_run (L := fun s => Logined (sessionOf s (SM_getSessionKey wp)))
    (fun _ _ hc hL => logined_smStep hc.1 hc.2 hL) h0 ops hC hlog

/-- A peer for the runs below. -/
def somePeer : WebsRec := { ipaddr := bytes "192.168.1.100" }

/-- A login, a tick and a heartbeat are guarded, and the peer is logged in. -/
theorem logined_since_success_heartbeat :
    (EGOSM_isUserLogined (run smStep EGOSM_Init [.setSessionInfo somePeer .success,
      .processSessionTimeOut, .resetSessionHeartbeat somePeer]) somePeer).2 = 1 ∧
    Since smStep (SmOp.logsIn (SM_getSessionKey somePeer))
      (fun s op => op.endsSession (SM_getSessionKey somePeer) s) EGOSM_Init
      [.setSessionInfo somePeer .success, .processSessionTimeOut,
        .resetSessionHeartbeat somePeer] := by
  have h1 : (EGOSM_isUserLogined (run smStep EGOSM_Init [.setSessionInfo somePeer .success,
      .processSessionTimeOut, .resetSessionHeartbeat somePeer]) somePeer).2 = 1 := by
    decide
  refine ⟨h1, logined_since_success _ ?_ somePeer (Or.inl h1)⟩
  refine ⟨trivial, trivial, ?_, trivial⟩
  intro e he
  have hent : sessionOf (smStep (smStep EGOSM_Init (.setSessionInfo somePeer .success))
      .processSessionTimeOut) (SM_getSessionKey somePeer) = some ⟨0x105, 0⟩ := by
    decide
  rw [hent, Option.some.injEq] at he
  rw [← he]
  decide

/-- Writing a failure count for a peer that never logged in makes it a session: the
id that goes in is `SESSIONID_FOR_LOGOUT`, which no reader tests for. -/
theorem setLoginFailCnt_creates_session :
    ¬ ∀ (ops : List SmOp) (wp : WebsRec),
      (EGOSM_isUserLogined (run smStep EGOSM_Init ops) wp).2 = 1 ∨
        EGOSM_getSessionID (run smStep EGOSM_Init ops) wp = SESSIONID_FOR_LOGIN_SUCCESS →
      Since smStep (SmOp.logsIn (SM_getSessionKey wp))
        (fun s op => op.endsSession (SM_getSessionKey wp) s) EGOSM_Init ops := by
  intro hall
  have h := hall [.setLoginFailCnt somePeer 1] somePeer (Or.inl (by decide))
  obtain ⟨pre, e, post, heq, hstart, -⟩ := h
  have hmem : e ∈ [SmOp.setLoginFailCnt somePeer 1] := by
    rw [heq]
    simp
  rw [List.mem_singleton] at hmem
  rw [hmem] at hstart
  exact hstart

end TestCore.Webs
