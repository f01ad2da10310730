/-
Login and logout: `webs_set_login` and the handlers around it in `webs_define.c`,
with the two timers that act on the failure count.

`webs_set_login` is the only function that compares credentials. Four handlers call
it, all with `blForce` true; they differ in where the parameters come from and in the
error codes of the answer. Their answer is kept together with what `webs_set_login`
returned to them (`LoginReply`).

The last part is about the handler that decrypts its parameters first. A ciphertext
is twice as long as its plaintext, and the slot it is copied to is not: the encrypted
login agrees with the plain one, in every memory layout, exactly up to 15 bytes.
-/
import TestCore.Webs.State

set_option autoImplicit false

namespace TestCore.Webs

open TestCore.Lib

/-! ## Who is logged in -/

/-- `gstrncpy(pstrIp, name, gstrlen(name))`: the name without a terminator, over
whatever the buffer holds. -/
def overlay (name buf : Bytes) : Bytes := name ++ buf.drop name.length

/-- The loop of `hasUserLogined` over the enumeration; the buffer is not cleared
between entries. -/
def hasUserLoginedFrom : List (Bytes × SessionEntry) → Bytes → Option Bytes
  | [], _ => none
  | (name, e) :: rest, buf =>
      if e.id = SESSIONID_FOR_LOGIN_SUCCESS then some (overlay name buf)
      else hasUserLoginedFrom rest (overlay name buf)

/-- `hasUserLogined`: the buffer, if it returned `TRUE`. -/
def hasUserLogined (s : Sessions) : Option Bytes :=
  s.bind fun t => hasUserLoginedFrom t.entries []

/-! ## `webs_set_login` -/

/-- `strcmp` of both parameters with the stored credentials. -/
def credentialsMatch (l : Layout) (g : WebsData) (params : LoginParams) : Bool :=
  params.str0 l == g.username && params.str1 l == g.password

/-- The interface is locked. -/
def loginLocked (st : Server) : Bool :=
  st.g_webs_data.lock_web_ui != 0 && decide (st.g_webs_data.max_retry_times ≤ st.g_login_fail_count)

/-- The branch of wrong credentials. -/
def loginFailed (st : Server) : Server :=
  let st := { st with g_login_fail_count := st.g_login_fail_count + 1 }
  if st.g_webs_data.lock_web_ui ≠ 0 ∧ st.g_webs_data.max_retry_times = st.g_login_fail_count
      ∧ st.g_webs_data.unlock_time ≠ -1 then
    { st with fail_threads := st.fail_threads ++ [.created] }
  else st

/-- The branch of a success. -/
def loginSuccess (st : Server) (wp : WebsRec) (blForce : Bool) : Server :=
  let st :=
    if blForce then
      let st := set_timer_clean st
      { st with
        g_sessionsTable := EGOSM_setSessionInfo st.g_sessionsTable wp .forceLoginSuccess }
    else { st with g_sessionsTable := EGOSM_setSessionInfo st.g_sessionsTable wp .success }
  { st with
    g_sessionsTable := EGOSM_setLoginFailCnt st.g_sessionsTable wp 0
    login_check_timer := true
    g_login_fail_count := 0 }

/-- `webs_set_login`. -/
def webs_set_login (l : Layout) (st : Server) (wp : WebsRec) (params : LoginParams)
    (blForce : Bool) : Server × WebsLoginState :=
  if loginLocked st then (st, .limit)
  else if !credentialsMatch l st.g_webs_data params then (loginFailed st, .failed)
  else
    match hasUserLogined st.g_sessionsTable with
    | none => (loginSuccess st wp blForce, .sucess)
    | some ip_browser_str =>
        let peer := EGOSM_getPeerInfo wp
        if ip_browser_str = sessionKey peer.1 peer.2 then (st, .alreadyLogin)
        else if !blForce then
          ({ st with
              g_sessionsTable := EGOSM_setSessionInfo st.g_sessionsTable wp .otherHasLogin },
            .other)
        else (loginSuccess st wp blForce, .sucess)

/-! ## The login handlers -/

/-- The server after a login request, what `webs_set_login` returned if it was called,
and the code of the answer. -/
structure LoginReply where
  st : Server
  login_ret : Option WebsLoginState
  error_code : Int

/-- The answer to a request whose parameters were checked: a handler's own code for
each result. -/
def loginWith (l : Layout) (st : Server) (wp : WebsRec) (badParams : Int)
    (code : WebsLoginState → Int) (params : Option LoginParams) : LoginReply :=
  match params with
  | none => ⟨st, none, badParams⟩
  | some params =>
      let r := webs_set_login l st wp params true
      ⟨r.1, some r.2, code r.2⟩

/-- `json_webs_set_login`. -/
def json_webs_set_login (pl : Platform) (st : Server) (wp : WebsRec) : LoginReply :=
  loginWith pl.jsonLayout st wp (-32700)
    (fun
      | .sucess => 0
      | .limit => 10103
      | .other => 10102
      | _ => 10101)
    (json_webs_check_params pl.lib wp)

/-- `json_webs_force_login`. -/
def json_webs_force_login (pl : Platform) (st : Server) (wp : WebsRec) : LoginReply :=
  loginWith pl.jsonLayout st wp (-32700)
    (fun
      | .sucess => 0
      | .limit => 10602
      | _ => 10601)
    (json_webs_check_params pl.lib wp)

/-- `jrd_webs_token_str` after `rand()` returned `rnd`. -/
def tokenStr (rnd : ℕ) : Bytes := bytes (toString (rnd % (100000000 - 10000000) + 10000000))

/-- The parameters `json_webs_set_login_security` logs in with. -/
def securityParams (pl : Platform) (st : Server) (wp : WebsRec) : Option LoginParams :=
  (json_webs_check_params pl.lib wp).map fun params =>
    if st.g_webs_data.webs_pw_username_encrypt ≠ 0 then decryptParams pl.jsonLayout params
    else params

/-- `json_webs_set_login_security`. Logging in again counts as a success here, and
only a new login draws a new token. -/
def json_webs_set_login_security (pl : Platform) (st : Server) (wp : WebsRec) (rnd : ℕ) :
    LoginReply :=
  let r := loginWith pl.jsonLayout st wp (-32700)
    (fun
      | .sucess => 0
      | .alreadyLogin => 0
      | .limit => 10103
      | .other => 10102
      | .failed => 10101)
    (securityParams pl st wp)
  if r.login_ret = some .sucess then
    { r with st := { r.st with jrd_webs_token_str := tokenStr rnd } }
  else r

/-- `webs_security` is on and the request carries no token. -/
def tnRefused (st : Server) (wp : WebsRec) : Bool :=
  st.g_webs_data.webs_security == 1 && wp.token_flag == 0

/-- `tn_webs_set_login`. The code is its `set_res`. -/
def tn_webs_set_login (pl : Platform) (st : Server) (wp : WebsRec) : LoginReply :=
  if tnRefused st wp then ⟨st, none, 255⟩
  else loginWith pl.tnLayout st wp 3 (fun _ => 0) (tn_webs_check_params wp)

/-! ## Logout, heartbeat and the state query -/

/-- `tn_webs_set_logout`. The timer is stopped whoever asks. -/
def tn_webs_set_logout (st : Server) (wp : WebsRec) : Server :=
  if tnRefused st wp then st
  else
    set_timer_clean { st with g_sessionsTable := (EGOSM_clearSessionInfo st.g_sessionsTable wp).1 }

/-- `json_webs_set_logout`. A peer without an entry changes nothing. -/
def json_webs_set_logout (st : Server) (wp : WebsRec) (rnd : ℕ) : Server :=
  let r := EGOSM_clearSessionInfo st.g_sessionsTable wp
  let st := { st with g_sessionsTable := r.1 }
  if r.2 ≠ 0 then st
  else { set_timer_clean st with jrd_webs_token_str := tokenStr rnd }

/-- `json_webs_heart_beat`. -/
def json_webs_heart_beat (st : Server) (wp : WebsRec) : Server :=
  let r := EGOSM_isUserLogined st.g_sessionsTable wp
  if r.2 = 1 then { st with g_sessionsTable := (EGOSM_resetSessionHeartbeat r.1 wp).1 }
  else { st with g_sessionsTable := r.1 }

/-- `e_jrd_webs_login_state`. -/
inductive WebsUiState where
  | logout
  | login
  | usedOut
  deriving DecidableEq, Repr

/-- The values `json_webs_get_login_state` answers with. -/
structure LoginStateRsp where
  State : WebsUiState
  LoginRemainingTimes : Int
  LockedRemainingTime : Int
  PwEncrypt : Int
  deriving DecidableEq, Repr

/-- The recover timer is started once, by the first query that finds the count used
up. -/
def startRecoverTimer (pl : Platform) (st : Server) : Server :=
  if st.g_webs_data.max_retry_times ≤ st.g_login_fail_count ∧ st.g_webs_data.webs_recover_time ≠ 0
      ∧ st.login_timer_start = false then
    { st with login_timer_start := true, timer_check_login_time := some (st.now + pl.second) }
  else st

/-- `json_webs_get_login_state`. -/
def json_webs_get_login_state (pl : Platform) (st : Server) (wp : WebsRec) :
    Server × LoginStateRsp :=
  let noPassword := st.g_webs_data.webs_uipwstate = .notNeeded
  let status : WebsUiState :=
    if noPassword then .login
    else if EGOSM_getSessionID st.g_sessionsTable wp = SESSIONID_FOR_LOGIN_SUCCESS then .login
    else if st.g_webs_data.max_retry_times ≤ st.g_login_fail_count then .usedOut
    else .logout
  let st := if noPassword then st else startRecoverTimer pl st
  (st,
    { State := status
      LoginRemainingTimes := st.g_webs_data.max_retry_times - st.g_login_fail_count
      LockedRemainingTime := st.login_state_val
      PwEncrypt := st.g_webs_data.webs_pw_username_encrypt })

/-- The values `webs_get_login_remain_info` answers with. -/
structure LoginRemainRsp where
  loginCountRemain : Int
  loginTimeRemain : Int
  error : Int
  deriving DecidableEq, Repr

/-- `webs_get_login_remain_info`. -/
def webs_get_login_remain_info (st : Server) : LoginRemainRsp :=
  let login_count_remain :=
    if 0 < st.g_login_fail_count then st.g_webs_data.max_retry_times - st.g_login_fail_count
    else st.g_webs_data.max_retry_times
  let login_time_remain :=
    if login_count_remain = 0 then st.g_webs_data.unlock_time - st.g_login_fail_time_count else 0
  ⟨login_count_remain, login_time_remain, 0⟩

/-! ## The timers -/

/-- A thread after a round of its loop: in the next `sleep(1)`, or done. -/
def nextRound (pl : Platform) (st : Server) (i : ℕ) : Option FailThread :=
  if (i : Int) < st.g_webs_data.unlock_time then some (.sleeping i (st.now + pl.second)) else none

/-- `Login_fail_time_count` runs on until it sleeps again or ends: the count since it
started, and the thread if it is still there. A thread that is not due does not run. -/
def failThreadRun (pl : Platform) (st : Server) : FailThread → Int × Option FailThread
  | .created => (0, nextRound pl st 0)
  | .sleeping i wake =>
      if st.now < wake then (st.g_login_fail_time_count, some (.sleeping i wake))
      else (st.g_login_fail_time_count + 1, nextRound pl st (i + 1))

/-- The `n`-th unfinished thread runs. One that ends sets the failure count to zero. -/
def failThreadStep (pl : Platform) (st : Server) (n : ℕ) : Server :=
  match st.fail_threads[n]? with
  | none => st
  | some th =>
      match failThreadRun pl st th with
      | (c, some th') =>
          { st with g_login_fail_time_count := c, fail_threads := st.fail_threads.set n th' }
      | (c, none) =>
          { st with
            g_login_fail_time_count := c
            fail_threads := st.fail_threads.eraseIdx n
            g_login_fail_count := 0 }

/-- `jrd_oem_webui_check_time`, when the timer is running and due. -/
def jrd_oem_webui_check_time (pl : Platform) (st : Server) : Server :=
  match st.timer_check_login_time with
  | none => st
  | some next =>
      if st.now < next then st
      else if st.g_webs_data.webs_recover_time < st.login_state_val + 1 then
        { st with
          timer_check_login_time := none
          g_login_fail_count := 0
          login_timer_start := false
          login_state_val := 0 }
      else
        { st with
          timer_check_login_time := some (next + pl.second)
          login_state_val := st.login_state_val + 1 }

/-- A tick of `login_check_timer`, when it is running. -/
def sessionTick (st : Server) : Server :=
  if st.login_check_timer then
    let r := EGOSM_processSessionTimeOut st.g_sessionsTable
    let st := { st with g_sessionsTable := r.1 }
    if r.2 then set_timer_clean st else st
  else st

/-! ## Encrypted and plain login -/

/-- The login got past the comparison of the credentials. -/
def Matched (login_ret : Option WebsLoginState) : Prop :=
  login_ret = some .sucess ∨ login_ret = some .alreadyLogin ∨ login_ret = some .other

/-- On an unlocked interface the result tells whether the credentials matched. -/
theorem webs_set_login_matched (l : Layout) {st : Server} (hopen : loginLocked st = false)
    (wp : WebsRec) (params : LoginParams) (blForce : Bool) :
    Matched (some (webs_set_login l st wp params blForce).2) ↔
      params.str0 l = st.g_webs_data.username ∧ params.str1 l = st.g_webs_data.password := by
  have hcred : credentialsMatch l st.g_webs_data params = true ↔
      params.str0 l = st.g_webs_data.username ∧ params.str1 l = st.g_webs_data.password := by
    unfold credentialsMatch
    rw [Bool.and_eq_true, beq_iff_eq, beq_iff_eq]
  rw [← hcred]
  unfold webs_set_login
  rw [hopen, if_neg (by decide)]
  rcases credentialsMatch l st.g_webs_data params with _ | _
  · simp [Matched]
  · rw [if_neg (by decide)]
    rcases hasUserLogined st.g_sessionsTable with _ | ip_browser_str
    · simp [Matched]
    · dsimp only
      split_ifs <;> simp [Matched]

/-- The handler reports what `webs_set_login` returned. -/
theorem login_security_ret (pl : Platform) (st : Server) (wp : WebsRec) (rnd : ℕ) :
    (json_webs_set_login_security pl st wp rnd).login_ret
      = (securityParams pl st wp).map fun params =>
          (webs_set_login pl.jsonLayout st wp params true).2 := by
  unfold json_webs_set_login_security loginWith
  rcases securityParams pl st wp with _ | params
  · rfl
  · dsimp only
    split_ifs <;> rfl

/-- A stored or attempted user name or password: 1 to 31 bytes, none of them zero. -/
structure Credential (b : Bytes) : Prop where
  nulFree : NulFree b
  pos : 1 ≤ b.length
  fits : b.length < MAX_PARAM_LENGTH

instance (b : Bytes) : Decidable (Credential b) :=
  decidable_of_iff (NulFree b ∧ 1 ≤ b.length ∧ b.length < MAX_PARAM_LENGTH)
    ⟨fun h => ⟨h.1, h.2.1, h.2.2⟩, fun h => ⟨h.nulFree, h.pos, h.fits⟩⟩

/-- The body of the request carries these two parameters. -/
def Carries (lib : JsonLib) (wp : WebsRec) (userName password : Bytes) : Prop :=
  ∃ body params, lib.json_tokener_parse wp.postData = some body ∧
    json_object_object_get body (bytes "params") = some params ∧
    json_object_object_get params (bytes "UserName") = some (.string userName) ∧
    json_object_object_get params (bytes "Password") = some (.string password)

theorem Carries.check_params {lib : JsonLib} {wp : WebsRec} {u p : Bytes}
    (h : Carries lib wp u p) (hu : NulFree u) (hp : NulFree p) :
    json_webs_check_params lib wp = some (LoginParams.store u p) := by
  obtain ⟨body, params, hbody, hparams, hname, hpass⟩ := h
  have huser : json_check_one_param params (bytes "UserName") = some u := by
    unfold json_check_one_param
    rw [hname]
    exact congrArg some (cstr_of_nulFree hu)
  have hpassword : json_check_one_param params (bytes "Password") = some p := by
    unfold json_check_one_param
    rw [hpass]
    exact congrArg some (cstr_of_nulFree hp)
  unfold json_webs_check_params
  simp only [hbody, hparams, huser, hpassword, Option.bind_eq_bind, Option.bind_some]

/-- The server with `webs_pw_username_encrypt` set as given and these credentials. -/
def Server.withLogin (st : Server) (encrypt : Int) (u p : Bytes) : Server :=
  { st with
    g_webs_data :=
      { st.g_webs_data with webs_pw_username_encrypt := encrypt, username := u, password := p } }

/-- The encrypted login of `u'` and `p'` gets past the comparison exactly when they are
the stored credentials, and exactly when the plain login does: for every platform,
every state in which logins are compared at all, every stored pair, and every two
requests that carry the ciphertexts and the plaintexts. -/
def EncryptedAgrees (charSigned : Bool) (u' p' : Bytes) : Prop :=
  ∀ (pl : Platform) (st : Server) (wp wpPlain : WebsRec) (rnd : ℕ) (u p : Bytes),
    loginLocked st = false → Credential u → Credential p →
    Carries pl.lib wp (jrd_encrypt charSigned u') (jrd_encrypt charSigned p') →
    Carries pl.lib wpPlain u' p' →
    (Matched (json_webs_set_login_security pl (st.withLogin 1 u p) wp rnd).login_ret ↔
        (u', p') = (u, p)) ∧
      (Matched (json_webs_set_login_security pl (st.withLogin 1 u p) wp rnd).login_ret ↔
        Matched (json_webs_set_login_security pl (st.withLogin 0 u p) wpPlain rnd).login_ret)

/-- The plain login compares the parameters as they are. -/
theorem plain_login_matched {pl : Platform} {st : Server} {wp : WebsRec} {u p u' p' : Bytes}
    (rnd : ℕ) (hopen : loginLocked st = false) (hu' : Credential u') (hp' : Credential p')
    (hbody : Carries pl.lib wp u' p') :
    Matched (json_webs_set_login_security pl (st.withLogin 0 u p) wp rnd).login_ret ↔
      (u', p') = (u, p) := by
  have hparams : securityParams pl (st.withLogin 0 u p) wp = some (LoginParams.store u' p') := by
    unfold securityParams
    rw [hbody.check_params hu'.nulFree hp'.nulFree]
    rfl
  have hopen' : loginLocked (st.withLogin 0 u p) = false := hopen
  rw [login_security_ret, hparams, Option.map_some, webs_set_login_matched _ hopen',
    LoginParams.str0_store hu'.nulFree hu'.fits, LoginParams.str1_store hp'.nulFree hp'.fits,
    Prod.mk.injEq]
  exact Iff.rfl

/-- What the encrypted login compares: each ciphertext read from its slot, decrypted,
and read from the slot again. -/
theorem encrypted_login_matched {pl : Platform} {st : Server} {wp : WebsRec} {u p : Bytes}
    {charSigned : Bool} {u' p' : Bytes} (rnd : ℕ) (hopen : loginLocked st = false)
    (hbody : Carries pl.lib wp (jrd_encrypt charSigned u') (jrd_encrypt charSigned p')) :
    Matched (json_webs_set_login_security pl (st.withLogin 1 u p) wp rnd).login_ret ↔
      (decryptParams pl.jsonLayout (LoginParams.store (jrd_encrypt charSigned u')
          (jrd_encrypt charSigned p'))).str0 pl.jsonLayout = u ∧
        (decryptParams pl.jsonLayout (LoginParams.store (jrd_encrypt charSigned u')
          (jrd_encrypt charSigned p'))).str1 pl.jsonLayout = p := by
  have hparams : securityParams pl (st.withLogin 1 u p) wp
      = some (decryptParams pl.jsonLayout (LoginParams.store (jrd_encrypt charSigned u')
          (jrd_encrypt charSigned p'))) := by
    unfold securityParams
    rw [hbody.check_params (jrd_encrypt_nulFree charSigned u') (jrd_encrypt_nulFree charSigned p')]
    rfl
  have hopen' : loginLocked (st.withLogin 1 u p) = false := hopen
  rw [login_security_ret, hparams, Option.map_some, webs_set_login_matched _ hopen']
  exact Iff.rfl

/-- The parsed body of a login request. -/
def loginTree (u p : Bytes) : Json :=
  .object [(bytes "params", .object [(bytes "UserName", .string u), (bytes "Password", .string p)])]

/-- A parser that reads the two parameters of a login body as given. -/
def loginLib (read : Bytes → Option (Bytes × Bytes)) : JsonLib where
  json_tokener_parse body := (read body).map fun b => loginTree b.1 b.2
  json_object_to_json_string _ := []

theorem loginLib_carries {read : Bytes → Option (Bytes × Bytes)} {wp : WebsRec} {u p : Bytes}
    (h : read wp.postData = some (u, p)) : Carries (loginLib read) wp u p := by
  refine ⟨loginTree u p, .object [(bytes "UserName", .string u), (bytes "Password", .string p)],
    ?_, ?_, ?_, ?_⟩
  · unfold loginLib
    dsimp only
    rw [h]
    rfl
  · unfold loginTree json_object_object_get
    rfl
  · unfold json_object_object_get
    rfl
  · unfold json_object_object_get
    rfl

/-- A platform with a given parser and given memory behind the parameter slots. -/
def loginPlatform (read : Bytes → Option (Bytes × Bytes)) (l : Layout) : Platform where
  lib := loginLib read
  jsonLayout := l
  tnLayout := l
  websIpaddr := bytes "192.168.1.1"
  websHost := bytes "tcl.home"
  second := 1

/-- Agreement in the layout `l` when the pair itself is stored: both slots read back as
what was encrypted. -/
theorem EncryptedAgrees.slots {charSigned : Bool} {u' p' : Bytes}
    (h : EncryptedAgrees charSigned u' p') (hu' : Credential u') (hp' : Credential p')
    (l : Layout) :
    (decryptParams l (LoginParams.store (jrd_encrypt charSigned u')
        (jrd_encrypt charSigned p'))).str0 l = u' ∧
      (decryptParams l (LoginParams.store (jrd_encrypt charSigned u')
        (jrd_encrypt charSigned p'))).str1 l = p' := by
  -- The empty body stands for the encrypted request, any other for the plain one.
  let read : Bytes → Option (Bytes × Bytes) := fun body =>
    if body = [] then some (jrd_encrypt charSigned u', jrd_encrypt charSigned p')
    else some (u', p')
  let st : Server := { g_webs_data := { username := [], password := [], lock_web_ui := 0 } }
  have hopen : loginLocked st = false := rfl
  have henc : Carries (loginPlatform read l).lib { ipaddr := [], postData := [] }
      (jrd_encrypt charSigned u') (jrd_encrypt charSigned p') := loginLib_carries rfl
  have hplain : Carries (loginPlatform read l).lib { ipaddr := [], postData := [1] } u' p' :=
    loginLib_carries rfl
  have hagree := (h (loginPlatform read l) st _ _ 0 u' p' hopen hu' hp' henc hplain).1.mpr rfl
  exact (encrypted_login_matched 0 hopen henc).mp hagree

/-- A user name of 16 bytes or more does not agree, because of what stands between the
slots. -/
theorem not_encryptedAgrees_of_long_user {charSigned : Bool} {u' p' : Bytes}
    (hu' : Credential u') (hp' : Credential p') (hlong : 16 ≤ u'.length) :
    ¬ EncryptedAgrees charSigned u' p' := by
  intro h
  obtain ⟨behind, w, hw, hne, hnul, hfits⟩ :=
    decrypt_slot_long_ne charSigned hu'.nulFree hlong [1, 0, 0, 0]
  -- The layout is chosen so that the slot decrypts to something else.
  have hslot := (h.slots hu' hp' ⟨behind, []⟩).1
  have hread : jrd_decrypt ((LoginParams.store (jrd_encrypt charSigned u')
      (jrd_encrypt charSigned p')).str0 ⟨behind, []⟩) = w := hw
  unfold decryptParams at hslot
  rw [hread, LoginParams.str0_store hnul hfits] at hslot
  exact hne hslot

/-- A password of 16 bytes or more does not agree, because of what stands behind the
array. -/
theorem not_encryptedAgrees_of_long_password {charSigned : Bool} {u' p' : Bytes}
    (hu' : Credential u') (hp' : Credential p') (hlong : 16 ≤ p'.length) :
    ¬ EncryptedAgrees charSigned u' p' := by
  intro h
  obtain ⟨behind, w, hw, hne, hnul, hfits⟩ :=
    decrypt_slot_long_ne charSigned hp'.nulFree hlong []
  -- The same, with the bytes behind the whole array.
  have hslot := (h.slots hu' hp' ⟨[], behind ++ []⟩).2
  have hread : jrd_decrypt ((LoginParams.store (jrd_encrypt charSigned u')
      (jrd_encrypt charSigned p')).str1 ⟨[], behind ++ []⟩) = w := hw
  unfold decryptParams at hslot
  rw [hread, LoginParams.str1_store hnul hfits] at hslot
  exact hne hslot

/-- **Encrypted and plain login agree up to 15 bytes and no further.** -/
theorem encrypted_login_agrees_iff (charSigned : Bool) (u' p' : Bytes) (hu' : Credential u')
    (hp' : Credential p') :
    EncryptedAgrees charSigned u' p' ↔ u'.length ≤ 15 ∧ p'.length ≤ 15 := by
  constructor
  · intro h
    refine ⟨?_, ?_⟩
    · by_contra hlong
      exact not_encryptedAgrees_of_long_user hu' hp' (by omega) h
    · by_contra hlong
      exact not_encryptedAgrees_of_long_password hu' hp' (by omega) h
  · rintro ⟨hshortU, hshortP⟩ pl st wp wpPlain rnd u p hopen - - henc hplain
    -- Short ciphertexts fit their slots with the terminator, so both slots decrypt to
    -- the plaintexts whatever lies behind them.
    have hdecrypt : decryptParams pl.jsonLayout (LoginParams.store (jrd_encrypt charSigned u')
        (jrd_encrypt charSigned p')) = LoginParams.store u' p' := by
      unfold decryptParams LoginParams.str0 LoginParams.str1
      have h0 := decrypt_slot_short charSigned hu'.nulFree hshortU
        (pl.jsonLayout.name1 ++ [1, 0, 0, 0])
      have h1 := decrypt_slot_short charSigned hp'.nulFree hshortP pl.jsonLayout.after
      exact congrArg₂ LoginParams.store h0 h1
    have hmatch : Matched (json_webs_set_login_security pl (st.withLogin 1 u p) wp rnd).login_ret ↔
        (u', p') = (u, p) := by
      rw [encrypted_login_matched rnd hopen henc, hdecrypt,
        LoginParams.str0_store hu'.nulFree hu'.fits, LoginParams.str1_store hp'.nulFree hp'.fits,
        Prod.mk.injEq]
    exact ⟨hmatch, by rw [hmatch, plain_login_matched rnd hopen hu' hp' hplain]⟩

/-- The text of a login body. -/
def loginBody (u p : Bytes) : Bytes :=
  bytes "\x7b\"params\":\x7b\"UserName\":\"" ++ u ++ bytes "\",\"Password\":\"" ++ p
    ++ bytes "\"\x7d\x7d"

/-- json-c on the two bodies of the next theorem. -/
def adminRead (body : Bytes) : Option (Bytes × Bytes) :=
  [(jrd_encrypt false (bytes "admin"), jrd_encrypt false (bytes "secret")),
    (bytes "admin", bytes "secret")].find? fun b => loginBody b.1 b.2 = body

/-- A short pair logs in encrypted. -/
theorem encrypted_login_agrees_admin :
    Matched (json_webs_set_login_security (loginPlatform adminRead ⟨[0x41, 0x42], [0x43]⟩)
      (Server.withLogin { g_webs_data := { username := [], password := [] } } 1
        (bytes "admin") (bytes "secret"))
      { ipaddr := bytes "192.168.1.100",
        postData := loginBody (jrd_encrypt false (bytes "admin"))
          (jrd_encrypt false (bytes "secret")) } 7).login_ret := by
  have hagree := (encrypted_login_agrees_iff false (bytes "admin") (bytes "secret")
    (by decide) (by decide)).mpr (by decide)
  refine (hagree (loginPlatform adminRead ⟨[0x41, 0x42], [0x43]⟩)
    { g_webs_data := { username := [], password := [] } } _
    { ipaddr := bytes "192.168.1.100", postData := loginBody (bytes "admin") (bytes "secret") } 7
    (bytes "admin") (bytes "secret") (by decide) (by decide) (by decide)
    (loginLib_carries (by decide)) (loginLib_carries (by decide))).1.mpr rfl

/-- A stored user name of 20 bytes does not log in encrypted. -/
theorem encrypted_login_disagrees_long :
    ¬ ∀ (charSigned : Bool) (u' p' : Bytes), Credential u' → Credential p' →
      EncryptedAgrees charSigned u' p' := by
  intro hall
  have hu : Credential (bytes "administrator.of.web") := by decide
  have hp : Credential (bytes "secret") := by decide
  exact not_encryptedAgrees_of_long_user hu hp (by decide) (hall false _ _ hu hp)

end TestCore.Webs
