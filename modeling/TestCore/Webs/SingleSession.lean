/-
One session at a time.

What the session table and its timer are for is a small machine: there is at most one
session, with the number of ticks since its last sign of life, and a timer that is
running or not (`Holder`). A login takes the session over, whoever had it; a heartbeat
of its holder starts the ticks anew; the sixth tick ends it and stops the timer.

The code keeps a hash table, scans it for names to delete, copies those names into
24-byte slots, and packs the ticks and the session id into one word. As long as every
session key is shorter than a slot, which the text of an IPv4 address guarantees, the
table is at every moment the one of such a machine (`Repr`), and every event is one
operation of it (`repr_step`). That the session is unique and expires is then proved of
the machine and read off the table.

One operation is not what one would want: `tn_webs_set_logout` stops the timer whether
or not the peer that asks holds the session.
-/
import TestCore.Webs.System

set_option autoImplicit false

namespace TestCore.Webs

open TestCore.Lib

/-! ## The machine -/

/-- Who holds the session and for how many ticks, and whether the timer is running. -/
structure Holder where
  session : Option (Bytes × ℕ)
  timer : Bool
  deriving DecidableEq

inductive HolderOp where
  | idle
  | login (k : Bytes)
  /-- `k` logs out; `stops` is set when the timer is stopped in any case. -/
  | logout (k : Bytes) (stops : Bool)
  | heartbeat (k : Bytes)
  | tick

/-- The key that holds the session. -/
def Holder.holder (h : Holder) : Option Bytes := h.session.map Prod.fst

def Holder.step (h : Holder) : HolderOp → Holder
  | .idle => h
  | .login k => ⟨some (k, 0), true⟩
  | .logout k stops =>
      if h.holder = some k then ⟨none, false⟩ else { h with timer := h.timer && !stops }
  | .heartbeat k => if h.holder = some k then ⟨some (k, 0), h.timer⟩ else h
  | .tick =>
      if h.timer then
        match h.session with
        | none => h
        | some (k, n) =>
            if SESSION_TIMEOUT_COUNT ≤ n + 1 then ⟨none, false⟩ else ⟨some (k, n + 1), h.timer⟩
      else h

/-- The operation stops the timer of somebody else's session. -/
def Holder.Disarms (h : Holder) : HolderOp → Prop
  | .logout k stops => stops = true ∧ h.holder ≠ none ∧ h.holder ≠ some k
  | _ => False

/-- A session has its timer running. -/
def Holder.Armed (h : Holder) : Prop := h.holder ≠ none → h.timer = true

/-- An armed machine stays armed exactly when the operation does not disarm it. -/
theorem Holder.armed_step_iff {h : Holder} (ha : h.Armed) (op : HolderOp) :
    (h.step op).Armed ↔ ¬ h.Disarms op := by
  obtain ⟨session, timer⟩ := h
  rcases session with _ | ⟨k', n⟩
  · cases op with
    | login k => simp [Holder.Armed, Holder.step, Holder.Disarms]
    | tick =>
        by_cases htimer : timer = true <;>
          simp [Holder.Armed, Holder.step, Holder.Disarms, Holder.holder, htimer]
    | _ => simp [Holder.Armed, Holder.step, Holder.Disarms, Holder.holder]
  · -- With a session, only a logout by somebody else can stop the timer and leave it.
    have htimer : timer = true := ha (by simp [Holder.holder])
    cases op with
    | idle => simp [Holder.Armed, Holder.step, Holder.Disarms, htimer]
    | login k => simp [Holder.Armed, Holder.step, Holder.Disarms]
    | logout k stops =>
        by_cases hk : k' = k <;>
          simp [Holder.Armed, Holder.step, Holder.Disarms, Holder.holder, hk, htimer]
    | heartbeat k =>
        by_cases hk : k' = k <;>
          simp [Holder.Armed, Holder.step, Holder.Disarms, Holder.holder, hk, htimer]
    | tick =>
        by_cases hout : SESSION_TIMEOUT_COUNT ≤ n + 1 <;>
          simp [Holder.Armed, Holder.step, Holder.Disarms, Holder.holder, hout, htimer]

/-- The operation neither is a sign of life of `k` nor ends its session by hand, and is
no login. -/
def HolderOp.Leaves (k : Bytes) : HolderOp → Prop
  | .login _ => False
  | .logout k' _ => k' ≠ k
  | .heartbeat k' => k' ≠ k
  | _ => True

def HolderOp.isTick : HolderOp → Bool
  | .tick => true
  | _ => false

/-- The session of `k` after `n` ticks: still there before the sixth, gone from then on. -/
def Holder.At (k : Bytes) (n : ℕ) (h : Holder) : Prop :=
  (n < SESSION_TIMEOUT_COUNT ∧ h.session = some (k, n)) ∨
    (SESSION_TIMEOUT_COUNT ≤ n ∧ h.session = none)

theorem Holder.at_step {k : Bytes} {n : ℕ} {h : Holder} (hat : h.At k n) (ha : h.Armed)
    {op : HolderOp} (hop : op.Leaves k) :
    (h.step op).At k (n + if op.isTick then 1 else 0) := by
  obtain ⟨session, timer⟩ := h
  rcases hat with ⟨hn, hs⟩ | ⟨hn, hs⟩
  · dsimp only at hs
    subst hs
    have htimer : timer = true := ha (by simp [Holder.holder])
    cases op with
    | idle => exact Or.inl ⟨hn, rfl⟩
    | login k' => exact absurd hop id
    | logout k' stops =>
        have hk : ¬ k = k' := fun hkk => hop hkk.symm
        exact Or.inl ⟨hn, by simp [Holder.step, Holder.holder, hk, HolderOp.isTick]⟩
    | heartbeat k' =>
        have hk : ¬ k = k' := fun hkk => hop hkk.symm
        exact Or.inl ⟨hn, by simp [Holder.step, Holder.holder, hk, HolderOp.isTick]⟩
    | tick =>
        by_cases hout : SESSION_TIMEOUT_COUNT ≤ n + 1
        · exact Or.inr ⟨hout, by simp [Holder.step, htimer, hout]⟩
        · exact Or.inl ⟨by simpa [HolderOp.isTick] using hout,
            by simp [Holder.step, htimer, hout, HolderOp.isTick]⟩
  · -- Once it is gone, only a login would bring a session back.
    dsimp only at hs
    subst hs
    right
    refine ⟨by omega, ?_⟩
    cases op with
    | idle => rfl
    | login k' => exact absurd hop id
    | logout k' stops => simp [Holder.step, Holder.holder]
    | heartbeat k' => simp [Holder.step, Holder.holder]
    | tick => by_cases htimer : timer = true <;> simp [Holder.step, htimer]

/-! ## The table of a machine -/

/-- The entry of a session that has seen `n` ticks. -/
def liveEntry (n : ℕ) : SessionEntry := ⟨SESSIONID_FOR_LOGIN_SUCCESS + 256 * n, 0⟩

theorem liveEntry_id (n : ℕ) : (liveEntry n).id = SESSIONID_FOR_LOGIN_SUCCESS := by
  rw [SessionEntry.id_eq]
  unfold liveEntry SESSIONID_FOR_LOGIN_SUCCESS
  dsimp only
  omega

theorem liveEntry_timeout {n : ℕ} (hn : n < 256) : (liveEntry n).timeout = n := by
  rw [SessionEntry.timeout_eq]
  unfold liveEntry SESSIONID_FOR_LOGIN_SUCCESS
  dsimp only
  omega

theorem liveEntry_bump {n : ℕ} (hn : n < 255) : (liveEntry n).bump = liveEntry (n + 1) := by
  have hint := SessionEntry.bump_integer (liveEntry n)
  rw [liveEntry_timeout (by omega), liveEntry_id] at hint
  have harg : (liveEntry n).bump.arg = 0 := rfl
  have heq : (n + 1) % 256 * 256 + SESSIONID_FOR_LOGIN_SUCCESS
      = SESSIONID_FOR_LOGIN_SUCCESS + 256 * (n + 1) := by omega
  rw [heq] at hint
  calc (liveEntry n).bump
      = ⟨(liveEntry n).bump.integer, (liveEntry n).bump.arg⟩ := rfl
    _ = liveEntry (n + 1) := by rw [hint, harg]; rfl

/-- The table of a machine: no entry, or the one of the holder. -/
def holderTable : Option (Bytes × ℕ) → SessionTable
  | none => Table.empty
  | some (k, n) => Table.single k (liveEntry n)

/-- The holder's key fits a slot, and its session has not run out. -/
def HolderFits (o : Option (Bytes × ℕ)) : Prop :=
  ∀ k n, o = some (k, n) → k.length < MAX_LENGTH_OF_ITEMNAME ∧ n < SESSION_TIMEOUT_COUNT

/-- Whoever holds the session is forced out. -/
theorem deleteAll_forcedOut {o : Option (Bytes × ℕ)} (hfits : HolderFits o) :
    deleteAll (holderTable o) (forcedOut (holderTable o)) = Table.empty := by
  rcases o with _ | ⟨k, n⟩
  · rfl
  · have hlen := (hfits k n rfl).1
    have htake : k.take (MAX_LENGTH_OF_ITEMNAME - 1) = k := List.take_of_length_le (by omega)
    have hforced : forcedOut (holderTable (some (k, n))) = [k] := by
      simp [forcedOut, holderTable, Table.single, liveEntry_id, htake, MAX_COUNT_FOR_DELETE_ITEM]
    rw [hforced]
    simp [deleteAll, symDelete, holderTable, Table.lookup_single, Table.delete_single]

/-- A forced login leaves a table with the new session alone. -/
theorem forcedLogin_holder {o : Option (Bytes × ℕ)} (hfits : HolderFits o) (wp : WebsRec) :
    EGOSM_setLoginFailCnt (EGOSM_setSessionInfo (some (holderTable o)) wp .forceLoginSuccess) wp 0
      = some (holderTable (some (SM_getSessionKey wp, 0))) := by
  unfold EGOSM_setSessionInfo
  dsimp only [Option.map_some]
  rw [deleteAll_forcedOut hfits]
  unfold EGOSM_setLoginFailCnt symEnter
  rw [Option.map_some, Table.enter_empty, Table.enter_single]
  have hid : ∀ cnt, EGOSM_getSessionID (some (Table.single (SM_getSessionKey wp)
      ⟨SESSIONID_FOR_LOGIN_SUCCESS, cnt⟩)) wp = SESSIONID_FOR_LOGIN_SUCCESS := by
    intro cnt
    rw [EGOSM_getSessionID_eq_success, Table.lookup_single, if_pos rfl]
    exact ⟨_, rfl, by simp [SessionEntry.id, SESSIONID_FOR_LOGIN_SUCCESS,
      SESSIONID_FOR_LOGIN_FAILED], by simp [SessionEntry.id, SESSIONID_FOR_LOGIN_SUCCESS,
      SESSIONID_FOR_HAS_LOGIN]⟩
  rw [hid]
  rfl

/-- Logging out deletes the session of its holder and nobody else's. -/
theorem clearSessionInfo_holder (o : Option (Bytes × ℕ)) (wp : WebsRec) :
    EGOSM_clearSessionInfo (some (holderTable o)) wp
      = if o.map Prod.fst = some (SM_getSessionKey wp) then (some (holderTable none), 0)
        else (some (holderTable o), -1) := by
  unfold EGOSM_clearSessionInfo symDelete
  rcases o with _ | ⟨k, n⟩
  · simp [holderTable]
  · by_cases hk : k = SM_getSessionKey wp
    · subst hk
      simp [holderTable, Table.lookup_single, Table.delete_single]
    · have hk' : ¬ SM_getSessionKey wp = k := fun h => hk h.symm
      simp [holderTable, Table.lookup_single, hk, hk']

/-- Asking about a peer changes nothing, and only the holder is logged in. -/
theorem isUserLogined_holder (o : Option (Bytes × ℕ)) (wp : WebsRec) :
    EGOSM_isUserLogined (some (holderTable o)) wp
      = (some (holderTable o), if o.map Prod.fst = some (SM_getSessionKey wp) then 1 else 0) := by
  unfold EGOSM_isUserLogined
  dsimp only
  rw [symLookup_key]
  rcases o with _ | ⟨k, n⟩
  · simp [holderTable]
  · by_cases hk : k = SM_getSessionKey wp
    · subst hk
      simp [holderTable, Table.lookup_single, liveEntry_id, SESSIONID_FOR_LOGIN_SUCCESS,
        SESSIONID_FOR_LOGIN_FAILED, SESSIONID_FOR_HAS_LOGIN]
    · have hk' : ¬ SM_getSessionKey wp = k := fun h => hk h.symm
      simp [holderTable, Table.lookup_single, hk, hk']

/-- The holder's heartbeat starts its ticks anew. -/
theorem resetSessionHeartbeat_holder (n : ℕ) (wp : WebsRec) :
    (EGOSM_resetSessionHeartbeat (some (holderTable (some (SM_getSessionKey wp, n)))) wp).1
      = some (holderTable (some (SM_getSessionKey wp, 0))) := by
  unfold EGOSM_resetSessionHeartbeat
  dsimp only
  rw [symLookup_key]
  simp only [holderTable, Table.lookup_single, if_pos]
  rw [Table.set_single]
  rfl

/-- A tick counts the session up, or ends it. -/
theorem processSessionTimeOut_holder {k : Bytes} {n : ℕ} (hlen : k.length < MAX_LENGTH_OF_ITEMNAME)
    (hn : n < SESSION_TIMEOUT_COUNT) :
    EGOSM_processSessionTimeOut (some (holderTable (some (k, n))))
      = if SESSION_TIMEOUT_COUNT ≤ n + 1 then (some (holderTable none), true)
        else (some (holderTable (some (k, n + 1))), false) := by
  have hn6 : n < 6 := hn
  have htake : k.take (MAX_LENGTH_OF_ITEMNAME - 1) = k := List.take_of_length_le (by omega)
  unfold EGOSM_processSessionTimeOut
  simp only [holderTable]
  have hentries : (Table.single k (liveEntry n)).entries = [(k, liveEntry n)] := rfl
  rw [hentries, timeoutScan, if_pos (by decide)]
  dsimp only
  rw [Table.set_single, liveEntry_bump (by omega), liveEntry_timeout (by omega), htake]
  by_cases hout : SESSION_TIMEOUT_COUNT ≤ n + 1
  · rw [if_pos hout, if_pos hout]
    simp [timeoutScan, deleteAll, symDelete, Table.lookup_single, Table.delete_single]
  · rw [if_neg hout, if_neg hout]
    simp [timeoutScan, deleteAll]

/-- The scan for somebody who is logged in finds the holder. -/
theorem hasUserLogined_holder (o : Option (Bytes × ℕ)) :
    hasUserLogined (some (holderTable o)) = o.map Prod.fst := by
  rcases o with _ | ⟨k, n⟩
  · rfl
  · simp [hasUserLogined, hasUserLoginedFrom, holderTable, Table.single, liveEntry_id, overlay]

/-! ## The events as operations of the machine -/

/-- The access check reaches the heartbeat page. -/
def heartBeatPage (pl : Platform) (wp : WebsRec) : Bool :=
  !isWebapi wp.path
    && !((startsWith wp.path (bytes "/goform") || startsWith wp.path (bytes "/cfgbak"))
      && !refererOk pl wp)
    && !freeUrl wp.url && startsWith wp.url (bytes "/heartBeat.asp")

/-- The operation an event stands for. -/
def holderOp (pl : Platform) (st : Server) : Event → HolderOp
  | .login via wp =>
      if loginRet pl st (.login via wp) = some .sucess then .login (SM_getSessionKey wp) else .idle
  | .tn_webs_set_logout wp =>
      if tnRefused st wp then .idle else .logout (SM_getSessionKey wp) true
  | .json_webs_set_logout wp _ => .logout (SM_getSessionKey wp) false
  | .json_webs_heart_beat wp => .heartbeat (SM_getSessionKey wp)
  | .access wp => if heartBeatPage pl wp then .heartbeat (SM_getSessionKey wp) else .idle
  | .sessionTick => .tick
  | _ => .idle

/-- The dotted text of an IPv4 address, as `inet_ntoa` writes it. -/
def dotted (a b c d : Fin 256) : Bytes :=
  bytes (toString a.val) ++ [46] ++ bytes (toString b.val) ++ [46] ++ bytes (toString c.val)
    ++ [46] ++ bytes (toString d.val)

/-- The peer of a login, which goes through one of the four handlers, has an IPv4
address. -/
def Event.FromIPv4 : Event → Prop
  | .login (.webs_set_login _ _ _) _ => False
  | .login _ wp => ∃ a b c d, wp.ipaddr = dotted a b c d
  | _ => True

theorem octet_length (a : Fin 256) : (bytes (toString a.val)).length ≤ 3 := by
  revert a
  decide +kernel

theorem dotted_length (a b c d : Fin 256) : (dotted a b c d).length ≤ 15 := by
  have ha := octet_length a
  have hb := octet_length b
  have hc := octet_length c
  have hd := octet_length d
  unfold dotted
  simp only [List.length_append, List.length_cons, List.length_nil]
  omega

/-- The server's table and timer are those of the machine. -/
structure Represents (st : Server) (h : Holder) : Prop where
  table : st.g_sessionsTable = some (holderTable h.session)
  timer : st.login_check_timer = h.timer
  fits : HolderFits h.session

/-- What leaves the table and the timer alone keeps the machine. -/
theorem Represents.congr {st st' : Server} {h : Holder} (hr : Represents st h)
    (htable : st'.g_sessionsTable = st.g_sessionsTable)
    (htimer : st'.login_check_timer = st.login_check_timer) : Represents st' h :=
  ⟨htable.trans hr.table, htimer.trans hr.timer, hr.fits⟩

theorem repr_loginSuccess {st : Server} {h : Holder} (hr : Represents st h) {wp : WebsRec}
    (hkey : (SM_getSessionKey wp).length < MAX_LENGTH_OF_ITEMNAME) :
    Represents (loginSuccess st wp true) (h.step (.login (SM_getSessionKey wp))) := by
  refine ⟨?_, rfl, ?_⟩
  · unfold loginSuccess set_timer_clean
    rw [if_pos rfl]
    dsimp only
    rw [hr.table]
    exact forcedLogin_holder hr.fits wp
  · rintro k n heq
    simp only [Holder.step, Option.some.injEq, Prod.mk.injEq] at heq
    rw [← heq.1, ← heq.2]
    exact ⟨hkey, by decide⟩

theorem repr_login {pl : Platform} {st : Server} {h : Holder} (hr : Represents st h)
    {via : LoginVia} {wp : WebsRec} (he : (Event.login via wp).FromIPv4) :
    Represents (step pl st (.login via wp)) (h.step (holderOp pl st (.login via wp))) := by
  obtain ⟨hvia, hkey⟩ : (∀ l params blForce, via ≠ .webs_set_login l params blForce) ∧
      (SM_getSessionKey wp).length < MAX_LENGTH_OF_ITEMNAME := by
    have hlen : (∃ a b c d, wp.ipaddr = dotted a b c d) →
        (SM_getSessionKey wp).length < MAX_LENGTH_OF_ITEMNAME := by
      rintro ⟨a, b, c, d, hip⟩
      have hdot := dotted_length a b c d
      rw [SM_getSessionKey_length, hip]
      unfold MAX_LENGTH_OF_ITEMNAME
      omega
    cases via with
    | webs_set_login l params blForce => exact absurd he id
    | json_webs_set_login_security rnd => exact ⟨by simp, hlen he⟩
    | json_webs_force_login => exact ⟨by simp, hlen he⟩
    | json_webs_set_login => exact ⟨by simp, hlen he⟩
    | tn_webs_set_login => exact ⟨by simp, hlen he⟩
  have hidle : ∀ ret, loginRet pl st (.login via wp) = ret → ret ≠ some .sucess →
      holderOp pl st (.login via wp) = .idle := by
    intro ret hret hne
    simp only [holderOp]
    rw [hret, if_neg hne]
  rcases loginReply_cases pl st wp via with ⟨hst, hret⟩ | ⟨l, params, blForce, token, hst, hret, hforce⟩
  · have hst' : step pl st (.login via wp) = st := hst
    rw [hidle none hret (by simp), hst']
    exact hr
  · have hret' : loginRet pl st (.login via wp)
        = some (webs_set_login l st wp params blForce).2 := hret
    -- All four handlers log in by force, which rules out `WEBS_LOGIN_OTHER`.
    have hst' : step pl st (.login via wp)
        = { (webs_set_login l st wp params blForce).1 with jrd_webs_token_str := token } := hst
    have hcase := webs_set_login_case l st wp params blForce
    rw [hforce hvia] at hst' hret' hcase
    rw [hst']
    generalize webs_set_login l st wp params true = r at hret' hcase
    cases hcase with
    | limit _ =>
        rw [hidle _ hret' (by simp)]
        exact hr.congr rfl rfl
    | failed _ =>
        rw [hidle _ hret' (by simp)]
        refine hr.congr ?_ ?_
        · unfold loginFailed
          dsimp only
          split_ifs <;> rfl
        · unfold loginFailed
          dsimp only
          split_ifs <;> rfl
    | alreadyLogin _ _ =>
        rw [hidle _ hret' (by simp)]
        exact hr.congr rfl rfl
    | other _ hno => cases hno
    | sucess _ _ =>
        have hop : holderOp pl st (.login via wp) = .login (SM_getSessionKey wp) := by
          simp only [holderOp]
          rw [hret', if_pos rfl]
        rw [hop]
        exact (repr_loginSuccess hr hkey).congr rfl rfl

theorem repr_tnLogout {st : Server} {h : Holder} (hr : Represents st h) (wp : WebsRec)
    (hok : tnRefused st wp = false) :
    Represents (tn_webs_set_logout st wp) (h.step (.logout (SM_getSessionKey wp) true)) := by
  have hclear := clearSessionInfo_holder h.session wp
  unfold tn_webs_set_logout set_timer_clean Holder.step Holder.holder
  rw [hok, if_neg (by decide), hr.table]
  dsimp only
  by_cases hk : h.session.map Prod.fst = some (SM_getSessionKey wp)
  · rw [if_pos hk] at hclear ⊢
    exact ⟨congrArg Prod.fst hclear, rfl, by rintro _ _ ⟨⟩⟩
  · rw [if_neg hk] at hclear ⊢
    exact ⟨congrArg Prod.fst hclear, by simp, hr.fits⟩

theorem repr_jsonLogout {st : Server} {h : Holder} (hr : Represents st h) (wp : WebsRec)
    (rnd : ℕ) :
    Represents (json_webs_set_logout st wp rnd) (h.step (.logout (SM_getSessionKey wp) false)) := by
  have hclear := clearSessionInfo_holder h.session wp
  unfold json_webs_set_logout set_timer_clean Holder.step Holder.holder
  rw [hr.table]
  dsimp only
  by_cases hk : h.session.map Prod.fst = some (SM_getSessionKey wp)
  · rw [if_pos hk] at hclear ⊢
    rw [hclear, if_neg (by simp)]
    exact ⟨rfl, rfl, by rintro _ _ ⟨⟩⟩
  · rw [if_neg hk] at hclear ⊢
    rw [hclear, if_pos (by simp)]
    exact ⟨rfl, by simpa using hr.timer, hr.fits⟩

/-- What both kinds of heartbeat do to the table. -/
theorem repr_heartbeat {st st' : Server} {h : Holder} (hr : Represents st h) (wp : WebsRec)
    (htable : st'.g_sessionsTable =
      if (EGOSM_isUserLogined st.g_sessionsTable wp).2 = 1 then
        (EGOSM_resetSessionHeartbeat (EGOSM_isUserLogined st.g_sessionsTable wp).1 wp).1
      else (EGOSM_isUserLogined st.g_sessionsTable wp).1)
    (htimer : st'.login_check_timer = st.login_check_timer) :
    Represents st' (h.step (.heartbeat (SM_getSessionKey wp))) := by
  rw [hr.table, isUserLogined_holder] at htable
  unfold Holder.step Holder.holder
  dsimp only at htable ⊢
  by_cases hk : h.session.map Prod.fst = some (SM_getSessionKey wp)
  · obtain ⟨⟨k, n⟩, hsession, hfst⟩ := Option.map_eq_some_iff.mp hk
    dsimp only at hfst
    subst hfst
    rw [if_pos hk, if_pos rfl, hsession, resetSessionHeartbeat_holder] at htable
    rw [if_pos hk]
    refine ⟨htable, htimer.trans hr.timer, ?_⟩
    rintro k' n' heq
    simp only [Option.some.injEq, Prod.mk.injEq] at heq
    rw [← heq.1, ← heq.2]
    exact ⟨(hr.fits _ _ hsession).1, by decide⟩
  · rw [if_neg hk, if_neg (by simp)] at htable
    rw [if_neg hk]
    exact ⟨htable, htimer.trans hr.timer, hr.fits⟩

theorem repr_tick {st : Server} {h : Holder} (hr : Represents st h) :
    Represents (sessionTick st) (h.step .tick) := by
  obtain ⟨session, timer⟩ := h
  have htimer := hr.timer
  dsimp only at htimer
  unfold sessionTick Holder.step
  rw [htimer]
  dsimp only
  by_cases ht : timer = true
  · rw [if_pos ht, if_pos ht, hr.table]
    rcases session with _ | ⟨k, n⟩
    · exact ⟨rfl, rfl, hr.fits⟩
    · obtain ⟨hlen, hn⟩ := hr.fits k n rfl
      dsimp only
      rw [processSessionTimeOut_holder hlen hn]
      by_cases hout : SESSION_TIMEOUT_COUNT ≤ n + 1
      · rw [if_pos hout, if_pos hout, if_pos rfl]
        exact ⟨rfl, rfl, by rintro _ _ ⟨⟩⟩
      · rw [if_neg hout, if_neg hout, if_neg (by simp)]
        refine ⟨rfl, rfl, ?_⟩
        rintro k' n' heq
        simp only [Option.some.injEq, Prod.mk.injEq] at heq
        rw [← heq.1, ← heq.2]
        exact ⟨hlen, by omega⟩
  · rw [if_neg ht, if_neg ht]
    exact hr

/-- Outside the heartbeat page an access check leaves a machine's table alone. -/
theorem access_table {pl : Platform} {st : Server} {h : Holder} (hr : Represents st h)
    (wp : WebsRec) :
    (websSecurityHandler pl st wp).g_sessionsTable =
      if heartBeatPage pl wp = true ∧ (EGOSM_isUserLogined st.g_sessionsTable wp).2 = 1 then
        (EGOSM_resetSessionHeartbeat (EGOSM_isUserLogined st.g_sessionsTable wp).1 wp).1
      else st.g_sessionsTable := by
  have hasked : ∀ wp', (EGOSM_isUserLogined st.g_sessionsTable wp').1 = st.g_sessionsTable := by
    intro wp'
    rw [hr.table, isUserLogined_holder]
  have hlimited : ∀ wp', (limitedMethod st wp').g_sessionsTable = st.g_sessionsTable := by
    intro wp'
    have hcheck : (loginCheck st wp').1 = st.g_sessionsTable := by
      unfold loginCheck
      dsimp only
      split_ifs
      · rfl
      · exact hasked wp'
    unfold limitedMethod
    dsimp only
    split_ifs <;> first | exact hcheck | rfl
  have hjson : ∀ wp', (securityJson pl st wp').g_sessionsTable = st.g_sessionsTable := by
    intro wp'
    unfold securityJson
    dsimp only
    rcases bodyMethod pl.lib wp'.postData with _ | method
    · dsimp only
      split_ifs <;> rfl
    · dsimp only
      split_ifs <;> first | exact hlimited wp' | rfl
  by_cases hapi : isWebapi wp.path = true
  · rw [websSecurityHandler_webapi pl st hapi, hjson]
    simp [heartBeatPage, hapi]
  · have hapi' : isWebapi wp.path = false := by simpa using hapi
    have hpage : heartBeatPage pl wp
        = (!pageRefused pl wp && !freeUrl wp.url && startsWith wp.url (bytes "/heartBeat.asp")) := by
      unfold heartBeatPage
      rw [hapi']
      rfl
    rw [websSecurityHandler_page pl st hapi', hpage]
    by_cases href : pageRefused pl wp = true
    · rw [if_pos href, href]
      simp
    · have href' : pageRefused pl wp = false := by simpa using href
      -- The marked request is the same peer asking for the same page.
      have hask : EGOSM_isUserLogined st.g_sessionsTable (markDownload wp)
          = EGOSM_isUserLogined st.g_sessionsTable wp := rfl
      have hreset : ∀ s, EGOSM_resetSessionHeartbeat s (markDownload wp)
          = EGOSM_resetSessionHeartbeat s wp := fun _ => rfl
      have hurl : (markDownload wp).url = wp.url := rfl
      have hsame := hasked wp
      rw [if_neg href, href']
      unfold securityPage
      dsimp only
      rw [hask, hreset, hurl]
      by_cases hfree : freeUrl wp.url = true
      · rw [if_pos hfree]
        simp [hfree]
      · rw [if_neg hfree]
        by_cases hlog : (EGOSM_isUserLogined st.g_sessionsTable wp).2 = 1
        · rw [if_pos hlog]
          by_cases hbeat : startsWith wp.url (bytes "/heartBeat.asp") = true
          · simp [hfree, hbeat, hlog]
          · simp [hbeat, hsame]
        · rw [if_neg hlog]
          simp [hlog, hsame]

/-- **Every event is an operation of the machine.** -/
theorem repr_step (pl : Platform) {st : Server} {h : Holder} {e : Event} (he : e.FromIPv4)
    (hr : Represents st h) : Represents (step pl st e) (h.step (holderOp pl st e)) := by
  cases e with
  | login via wp => exact repr_login hr he
  | tn_webs_set_logout wp =>
      unfold holderOp
      by_cases href : tnRefused st wp = true
      · have hst : step pl st (.tn_webs_set_logout wp) = st := by
          show tn_webs_set_logout st wp = st
          unfold tn_webs_set_logout
          rw [if_pos href]
        dsimp only
        rw [if_pos href, hst]
        exact hr
      · dsimp only
        rw [if_neg href]
        exact repr_tnLogout hr wp (by simpa using href)
  | json_webs_set_logout wp rnd => exact repr_jsonLogout hr wp rnd
  | json_webs_heart_beat wp =>
      refine repr_heartbeat hr wp ?_ ?_
      · show (json_webs_heart_beat st wp).g_sessionsTable = _
        unfold json_webs_heart_beat
        dsimp only
        split_ifs <;> rfl
      · show (json_webs_heart_beat st wp).login_check_timer = _
        unfold json_webs_heart_beat
        dsimp only
        split_ifs <;> rfl
  | access wp =>
      have htable : (step pl st (.access wp)).g_sessionsTable
          = (websSecurityHandler pl st wp).g_sessionsTable := rfl
      rw [access_table hr] at htable
      unfold holderOp
      dsimp only
      by_cases hpage : heartBeatPage pl wp = true
      · rw [if_pos hpage]
        refine repr_heartbeat hr wp ?_ rfl
        rw [htable]
        simp only [hpage, true_and]
        congr 1
        rw [hr.table, isUserLogined_holder]
      · rw [if_neg hpage]
        rw [if_neg (fun hboth => hpage hboth.1)] at htable
        exact hr.congr htable rfl
  | json_webs_get_login_state wp =>
      have hsame : (startRecoverTimer pl st).g_sessionsTable = st.g_sessionsTable ∧
          (startRecoverTimer pl st).login_check_timer = st.login_check_timer := by
        unfold startRecoverTimer
        split_ifs <;> exact ⟨rfl, rfl⟩
      show Represents (json_webs_get_login_state pl st wp).1 h
      unfold json_webs_get_login_state
      dsimp only
      split_ifs
      · exact hr
      · exact hr.congr hsame.1 hsame.2
  | failThread n =>
      show Represents (failThreadStep pl st n) h
      unfold failThreadStep
      split
      · exact hr
      · split <;> exact hr.congr rfl rfl
  | recoverTick =>
      show Represents (jrd_oem_webui_check_time pl st) h
      unfold jrd_oem_webui_check_time
      split
      · exact hr
      · split_ifs
        · exact hr
        · exact hr.congr rfl rfl
        · exact hr.congr rfl rfl
  | sessionTick => exact repr_tick hr
  | wait d => exact hr.congr rfl rfl

/-! ## One session at a time -/

/-- The keys whose entry has the id of a successful login. -/
def successKeys : Sessions → List Bytes
  | none => []
  | some t => (t.entries.filter fun p => p.2.id = SESSIONID_FOR_LOGIN_SUCCESS).map Prod.fst

theorem Represents.successKeys {st : Server} {h : Holder} (hr : Represents st h) :
    successKeys st.g_sessionsTable = h.holder.toList := by
  rw [hr.table]
  unfold Holder.holder
  rcases h.session with _ | ⟨k, n⟩
  · rfl
  · simp [TestCore.Webs.successKeys, holderTable, Table.single, liveEntry_id]

/-- A server without sessions is an idle machine. -/
theorem Represents.of_empty {st : Server} (hempty : st.g_sessionsTable = EGOSM_Init) :
    Represents st ⟨none, st.login_check_timer⟩ :=
  ⟨hempty, rfl, by rintro _ _ ⟨⟩⟩

/-- Every state of a run is that of a machine. -/
theorem exists_represents (pl : Platform) {st : Server} (hempty : st.g_sessionsTable = EGOSM_Init)
    {es : List Event} (hes : ∀ e ∈ es, e.FromIPv4) :
    ∃ h, Represents (run (step pl) st es) h :=
  ⟨_, run_simulation (holderOp pl) (fun _ _ _ he hr => repr_step pl he hr)
    (Represents.of_empty hempty) (along_of_forall (step pl) st hes)⟩

/-- **There is one session at most**, and after a successful login it is the one of the
peer that logged in. -/
theorem at_most_one_session (pl : Platform) (st : Server)
    (hempty : st.g_sessionsTable = EGOSM_Init) (es : List Event) (hes : ∀ e ∈ es, e.FromIPv4) :
    (successKeys (run (step pl) st es).g_sessionsTable).length ≤ 1 ∧
    ∀ pre via wp, es = pre ++ [.login via wp] →
      loginRet pl (run (step pl) st pre) (.login via wp) = some .sucess →
      successKeys (run (step pl) st es).g_sessionsTable = [SM_getSessionKey wp] := by
  constructor
  · obtain ⟨h, hr⟩ := exists_represents pl hempty hes
    rw [hr.successKeys]
    rcases h.holder with _ | k <;> simp
  · rintro pre via wp rfl hret
    obtain ⟨h, hr⟩ := exists_represents pl hempty
      (fun e he => hes e (List.mem_append_left _ he))
    have hlast := repr_step pl (hes (.login via wp) (by simp)) hr
    have hop : holderOp pl (run (step pl) st pre) (.login via wp)
        = .login (SM_getSessionKey wp) := by
      simp only [holderOp]
      rw [hret, if_pos rfl]
    rw [hop] at hlast
    rw [run_append]
    exact hlast.successKeys

/-! ### Two peers -/

/-- A server with `admin` and `secret` as credentials and nobody logged in. -/
def sessionServer : Server :=
  Server.init { username := bytes "admin", password := bytes "secret" }

def sessionPlatform : Platform := loginPlatform (fun _ => none) ⟨[], []⟩

/-- A form from `192.168.1.d` with the right credentials. -/
def formPeer (d : Fin 256) : WebsRec where
  ipaddr := dotted 192 168 1 d
  cgiVars := [(bytes "username", bytes "admin"), (bytes "password", bytes "secret")]

def formLogin (d : Fin 256) : Event := .login .tn_webs_set_login (formPeer d)

theorem formLogin_fromIPv4 (d : Fin 256) : (formLogin d).FromIPv4 := ⟨192, 168, 1, d, rfl⟩

/-- The second peer takes the session over. -/
theorem at_most_one_session_taken_over :
    successKeys (run (step sessionPlatform) sessionServer
      [formLogin 100, formLogin 101]).g_sessionsTable = [bytes "192.168.1.101_0"] := by
  have hes : ∀ e ∈ [formLogin 100, formLogin 101], e.FromIPv4 := by
    intro e he
    rcases List.mem_pair.mp he with h | h
    · rw [h]
      exact formLogin_fromIPv4 100
    · rw [h]
      exact formLogin_fromIPv4 101
  have hlast := (at_most_one_session sessionPlatform sessionServer rfl
    [formLogin 100, formLogin 101] hes).2 [formLogin 100] .tn_webs_set_login (formPeer 101) rfl
    (by decide +kernel)
  have hkey : SM_getSessionKey (formPeer 101) = bytes "192.168.1.101_0" := by decide +kernel
  rw [← hkey]
  exact hlast

/-! ## Expiry -/

/-- Whoever is logged in, the timer is running. -/
def Server.Armed (st : Server) : Prop :=
  successKeys st.g_sessionsTable ≠ [] → st.login_check_timer = true

/-- A logout that is not refused, by a peer other than the one who is logged in. -/
def disarms (st : Server) : Event → Prop
  | .tn_webs_set_logout wp =>
      tnRefused st wp = false ∧ hasUserLogined st.g_sessionsTable ≠ none ∧
        hasUserLogined st.g_sessionsTable ≠ some (SM_getSessionKey wp)
  | _ => False

instance (st : Server) : Decidable st.Armed := inferInstanceAs (Decidable (_ → _))

instance (st : Server) : (e : Event) → Decidable (disarms st e)
  | .tn_webs_set_logout _ => inferInstanceAs (Decidable (_ ∧ _))
  | .login _ _ | .json_webs_set_logout _ _ | .json_webs_heart_beat _ | .access _
  | .json_webs_get_login_state _ | .failThread _ | .recoverTick | .sessionTick | .wait _ =>
      isFalse id

/-- The event logs `k` in, or is a heartbeat of `k` while it is logged in. -/
def restarts (pl : Platform) (st : Server) (k : Bytes) (e : Event) : Prop :=
  holderOp pl st e = .login k ∨
    (holderOp pl st e = .heartbeat k ∧ k ∈ successKeys st.g_sessionsTable)

def Event.isTick : Event → Bool
  | .sessionTick => true
  | _ => false

/-- If `k` has logged in or sent a heartbeat, and since then nobody logged in and `k`
neither logged out nor sent a heartbeat, then its session is there exactly before the
sixth tick. -/
def ExpiresAtSixthTick (pl : Platform) (st : Server) (es : List Event) : Prop :=
  ∀ pre e mid k, es = pre ++ e :: mid → restarts pl (run (step pl) st pre) k e →
    Along (step pl) (fun s e => (holderOp pl s e).Leaves k)
      (step pl (run (step pl) st pre) e) mid →
    (k ∈ successKeys (run (step pl) st es).g_sessionsTable ↔
      mid.countP Event.isTick < SESSION_TIMEOUT_COUNT)

theorem Represents.armed_iff {st : Server} {h : Holder} (hr : Represents st h) :
    st.Armed ↔ h.Armed := by
  unfold Server.Armed Holder.Armed
  rw [hr.successKeys, hr.timer]
  rcases h.holder with _ | k <;> simp

theorem Represents.disarms_iff (pl : Platform) {st : Server} {h : Holder} (hr : Represents st h)
    (e : Event) : disarms st e ↔ h.Disarms (holderOp pl st e) := by
  cases e with
  | tn_webs_set_logout wp =>
      simp only [disarms, holderOp, hr.table, hasUserLogined_holder]
      by_cases href : tnRefused st wp = true
      · simp [href, Holder.Disarms]
      · have href' : tnRefused st wp = false := by simpa using href
        simp [href', Holder.Disarms, Holder.holder]
  | login via wp =>
      simp only [disarms, holderOp, false_iff]
      split_ifs <;> exact id
  | access wp =>
      simp only [disarms, holderOp, false_iff]
      split_ifs <;> exact id
  | json_webs_set_logout wp rnd => simp [disarms, holderOp, Holder.Disarms]
  | _ => exact Iff.rfl

theorem opsOf_countP (pl : Platform) (st : Server) (es : List Event) :
    (opsOf (step pl) (holderOp pl) st es).countP HolderOp.isTick = es.countP Event.isTick := by
  have hone : ∀ s e, (holderOp pl s e).isTick = e.isTick := by
    intro s e
    cases e <;> simp only [holderOp] <;> first | rfl | (split_ifs <;> rfl)
  induction es generalizing st with
  | nil => rfl
  | cons e es ih => rw [opsOf, List.countP_cons, List.countP_cons, ih, hone]

/-- The machine over a stretch that leaves the session of `k` alone. -/
theorem Holder.at_run {k : Bytes} {n : ℕ} {h : Holder} {ops : List HolderOp} (hat : h.At k n)
    (ha : h.Armed)
    (hops : Along Holder.step (fun h op => op.Leaves k ∧ ¬ h.Disarms op) h ops) :
    (run Holder.step h ops).At k (n + ops.countP HolderOp.isTick) := by
  induction ops generalizing h n with
  | nil => exact hat
  | cons op ops ih =>
      have hnext := Holder.at_step hat ha hops.1.1
      have hall := ih hnext ((Holder.armed_step_iff ha op).mpr hops.1.2) hops.2
      rw [run_cons, List.countP_cons]
      have hcomm : n + (ops.countP HolderOp.isTick + if op.isTick = true then 1 else 0)
          = n + (if op.isTick = true then 1 else 0) + ops.countP HolderOp.isTick := by omega
      rw [hcomm]
      exact hall

/-- A session that is started anew in an armed state is in the machine with no ticks. -/
theorem Represents.restarted {pl : Platform} {st : Server} {h : Holder} {k : Bytes} {e : Event}
    (hr : Represents st h) (hstart : restarts pl st k e) :
    (h.step (holderOp pl st e)).At k 0 := by
  rcases hstart with hop | ⟨hop, hmem⟩
  · rw [hop]
    exact Or.inl ⟨by decide, rfl⟩
  · rw [hr.successKeys] at hmem
    have hk : h.holder = some k := by simpa using hmem
    rw [hop]
    refine Or.inl ⟨by decide, ?_⟩
    simp [Holder.step, hk]

/-- As long as no logout disarms the timer, sessions expire. -/
theorem expires_of_armed {pl : Platform} {st : Server} (hempty : st.g_sessionsTable = EGOSM_Init)
    {es : List Event} (hes : ∀ e ∈ es, e.FromIPv4)
    (harmed : Along (step pl) (fun s e => ¬ disarms s e) st es) :
    ExpiresAtSixthTick pl st es := by
  rintro pre e mid k rfl hstart hleave
  have hC := along_and (step pl) (along_of_forall (step pl) st hes) harmed
  rw [along_append, along_cons] at hC
  obtain ⟨hpre, ⟨he, hedis⟩, hmid⟩ := hC
  -- The simulation, with the machine armed throughout.
  have hsim : ∀ s t e, (Event.FromIPv4 e ∧ ¬ disarms s e) → Represents s t ∧ t.Armed →
      Represents (step pl s e) (t.step (holderOp pl s e)) ∧ (t.step (holderOp pl s e)).Armed := by
    rintro s t e' ⟨he', hdis⟩ ⟨hr, ha⟩
    rw [hr.disarms_iff pl] at hdis
    exact ⟨repr_step pl he' hr, (Holder.armed_step_iff ha _).mpr hdis⟩
  have hinit : Represents st ⟨none, st.login_check_timer⟩ ∧
      Holder.Armed ⟨none, st.login_check_timer⟩ :=
    ⟨Represents.of_empty hempty, fun h => absurd rfl h⟩
  have hstate := run_simulation (holderOp pl) hsim hinit hpre
  have hnext := hsim _ _ e ⟨he, hedis⟩ hstate
  have hat := hstate.1.restarted hstart
  have hend := run_simulation (holderOp pl) hsim hnext hmid
  have hops := along_simulation (holderOp pl) (C := fun s e =>
      (Event.FromIPv4 e ∧ ¬ disarms s e) ∧ (holderOp pl s e).Leaves k)
    (D := fun h op => op.Leaves k ∧ ¬ h.Disarms op)
    (fun s t e' hc hr => hsim s t e' hc.1 hr)
    (fun s t e' hc hr => ⟨hc.2, fun hd => hc.1.2 ((hr.1.disarms_iff pl e').mpr hd)⟩)
    hnext (along_and (step pl) hmid hleave)
  -- The rest is the machine's own run from the moment the ticks start anew.
  have hfinal := Holder.at_run hat hnext.2 hops
  rw [opsOf_countP, zero_add] at hfinal
  rw [run_append, run_cons, hend.1.successKeys]
  unfold Holder.holder
  rcases hfinal with ⟨hn, hs⟩ | ⟨hn, hs⟩
  · rw [hs]
    simpa using hn
  · rw [hs]
    simpa using hn

/-- **Expiry is armed exactly as long as no logout disarms it.** -/
theorem session_expiry_armed_iff (pl : Platform) (st : Server)
    (hempty : st.g_sessionsTable = EGOSM_Init) (es : List Event) (hes : ∀ e ∈ es, e.FromIPv4) :
    Along (step pl) (fun s e => ¬ disarms s e) st es ↔
      ∀ pre post, es = pre ++ post →
        (run (step pl) st pre).Armed ∧ ExpiresAtSixthTick pl st pre := by
  have hall : ∀ e ∈ es, e.FromIPv4 := hes
  have hstates : Along (step pl) (fun s e => ¬ disarms s e) st es ↔
      ∀ pre post, es = pre ++ post → (∃ h, Represents (run (step pl) st pre) h) ∧
        (run (step pl) st pre).Armed := by
    refine along_iff_states (A := fun s => (∃ h, Represents s h) ∧ s.Armed)
      (D := fun _ e => Event.FromIPv4 e) ?_ (along_of_forall (step pl) st hes) ?_
    · rintro s e he ⟨⟨h, hr⟩, ha⟩
      have hnext := repr_step pl he hr
      rw [hnext.armed_iff, hr.disarms_iff pl,
        ← Holder.armed_step_iff (hr.armed_iff.mp ha)]
      exact ⟨fun hh => hh.2, fun hh => ⟨⟨_, hnext⟩, hh⟩⟩
    · refine ⟨⟨_, Represents.of_empty hempty⟩, fun h => absurd ?_ h⟩
      rw [hempty]
      rfl
  constructor
  · rintro harmed pre post rfl
    refine ⟨(hstates.mp harmed pre post rfl).2, ?_⟩
    rw [along_append] at harmed
    exact expires_of_armed hempty (fun e he => hall e (List.mem_append_left _ he)) harmed.1
  · intro h
    rw [hstates]
    rintro pre post rfl
    exact ⟨exists_represents pl hempty (fun e he => hall e (List.mem_append_left _ he)),
      (h pre post rfl).1⟩

/-- A login, a tick and a logout of the same peer: the timer runs after the tick. -/
theorem session_expiry_armed_own_logout :
    (run (step sessionPlatform) sessionServer [formLogin 100, .sessionTick]).Armed := by
  have hes : ∀ e ∈ [formLogin 100, .sessionTick, .tn_webs_set_logout (formPeer 100)],
      e.FromIPv4 := by
    intro e he
    simp only [List.mem_cons, List.not_mem_nil, or_false] at he
    rcases he with h | h | h
    · rw [h]
      exact formLogin_fromIPv4 100
    · rw [h]
      trivial
    · rw [h]
      trivial
  have harmed := (session_expiry_armed_iff sessionPlatform sessionServer rfl
    [formLogin 100, .sessionTick, .tn_webs_set_logout (formPeer 100)] hes).mp (by decide +kernel)
  exact (harmed [formLogin 100, .sessionTick] [.tn_webs_set_logout (formPeer 100)] rfl).1

/-- A logout by a peer that is not logged in leaves the session of another one without a
timer. -/
theorem foreign_logout_stops_timer :
    ¬ ∀ (pl : Platform) (st : Server), st.g_sessionsTable = EGOSM_Init →
      ∀ es : List Event, (∀ e ∈ es, e.FromIPv4) → ∀ pre post, es = pre ++ post →
        (run (step pl) st pre).Armed ∧ ExpiresAtSixthTick pl st pre := by
  intro hall
  have hes : ∀ e ∈ [formLogin 100, .tn_webs_set_logout (formPeer 101)], e.FromIPv4 := by
    intro e he
    rcases List.mem_pair.mp he with h | h
    · rw [h]
      exact formLogin_fromIPv4 100
    · rw [h]
      trivial
  have harmed := (hall sessionPlatform sessionServer rfl
    [formLogin 100, .tn_webs_set_logout (formPeer 101)] hes
    [formLogin 100, .tn_webs_set_logout (formPeer 101)] [] rfl).1
  revert harmed
  decide +kernel

end TestCore.Webs
