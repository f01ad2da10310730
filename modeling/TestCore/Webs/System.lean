/-
The server as a state machine.

An event is one request or one timer that goes off; `step` runs the function of the
source that handles it on the globals. The order of events is arbitrary: any peer may
send any request at any time, a thread or a timer runs whenever it is due or later,
and time passes in between.

Nothing later looks at the code again. Two lemmas say what a step can do: one for the
failure count and its timers (`lock_effect`), one for the session table and its timer,
once the table is known to hold a single session. A property of the first kind does not
depend on the session table at all, which is what `lockView` makes precise: it erases
the fields that do not matter, and a property of the rest holds of a state exactly when
it holds of its view.
-/
import TestCore.Webs.Login
import TestCore.Webs.Security

set_option autoImplicit false

namespace TestCore.Webs

open TestCore.Lib

/-! ## Events -/

/-- The ways a login reaches `webs_set_login`: directly, with any parameters and any
force flag, or through one of the four handlers. -/
inductive LoginVia where
  | webs_set_login (l : Layout) (params : LoginParams) (blForce : Bool)
  | json_webs_set_login_security (rnd : ℕ)
  | json_webs_force_login
  | json_webs_set_login
  | tn_webs_set_login

inductive Event where
  | login (via : LoginVia) (wp : WebsRec)
  | tn_webs_set_logout (wp : WebsRec)
  | json_webs_set_logout (wp : WebsRec) (rnd : ℕ)
  | json_webs_heart_beat (wp : WebsRec)
  /-- An access check by `websSecurityHandler`. -/
  | access (wp : WebsRec)
  | json_webs_get_login_state (wp : WebsRec)
  /-- The `n`-th `Login_fail_time_count` thread runs. -/
  | failThread (n : ℕ)
  /-- `timer_check_login_time` goes off. -/
  | recoverTick
  /-- `login_check_timer` goes off. -/
  | sessionTick
  /-- Time passes. -/
  | wait (d : ℕ)

/-- A login request is handled. -/
def loginReply (pl : Platform) (st : Server) (wp : WebsRec) : LoginVia → LoginReply
  | .webs_set_login l params blForce =>
      let r := TestCore.Webs.webs_set_login l st wp params blForce
      ⟨r.1, some r.2, 0⟩
  | .json_webs_set_login_security rnd =>
      TestCore.Webs.json_webs_set_login_security pl st wp rnd
  | .json_webs_force_login => TestCore.Webs.json_webs_force_login pl st wp
  | .json_webs_set_login => TestCore.Webs.json_webs_set_login pl st wp
  | .tn_webs_set_login => TestCore.Webs.tn_webs_set_login pl st wp

/-- The server after an event. -/
def step (pl : Platform) (st : Server) : Event → Server
  | .login via wp => (loginReply pl st wp via).st
  | .tn_webs_set_logout wp => TestCore.Webs.tn_webs_set_logout st wp
  | .json_webs_set_logout wp rnd => TestCore.Webs.json_webs_set_logout st wp rnd
  | .json_webs_heart_beat wp => TestCore.Webs.json_webs_heart_beat st wp
  | .access wp =>
      { st with g_sessionsTable := (websSecurityHandler pl st wp).g_sessionsTable }
  | .json_webs_get_login_state wp => (TestCore.Webs.json_webs_get_login_state pl st wp).1
  | .failThread n => failThreadStep pl st n
  | .recoverTick => jrd_oem_webui_check_time pl st
  | .sessionTick => TestCore.Webs.sessionTick st
  | .wait d => { st with now := st.now + d }

/-- What `webs_set_login` returned, if the event called it. -/
def loginRet (pl : Platform) (st : Server) : Event → Option WebsLoginState
  | .login via wp => (loginReply pl st wp via).login_ret
  | _ => none

/-- The server when it starts. -/
def Server.init (g : WebsData) : Server := { g_webs_data := g }

/-! ## A login request -/

/-- A login request changes nothing, or it is a call of `webs_set_login`, which may be
followed by a new token. -/
theorem loginReply_cases (pl : Platform) (st : Server) (wp : WebsRec) (via : LoginVia) :
    (loginReply pl st wp via).st = st ∧ (loginReply pl st wp via).login_ret = none ∨
    ∃ l params blForce token,
      (loginReply pl st wp via).st
        = { (webs_set_login l st wp params blForce).1 with jrd_webs_token_str := token } ∧
      (loginReply pl st wp via).login_ret = some (webs_set_login l st wp params blForce).2 ∧
      ((∀ l' params' blForce', via ≠ .webs_set_login l' params' blForce') → blForce = true) := by
  have hwith : ∀ l badParams code params,
      (loginWith l st wp badParams code params).st = st ∧
        (loginWith l st wp badParams code params).login_ret = none ∨
      ∃ params', (loginWith l st wp badParams code params).st
          = (webs_set_login l st wp params' true).1 ∧
        (loginWith l st wp badParams code params).login_ret
          = some (webs_set_login l st wp params' true).2 := by
    intro l badParams code params
    rcases params with _ | params
    · exact Or.inl ⟨rfl, rfl⟩
    · exact Or.inr ⟨params, rfl, rfl⟩
  cases via with
  | webs_set_login l params blForce =>
      right
      refine ⟨l, params, blForce, (webs_set_login l st wp params blForce).1.jrd_webs_token_str,
        rfl, rfl, fun h => absurd rfl (h l params blForce)⟩
  | json_webs_set_login_security rnd =>
      show (json_webs_set_login_security pl st wp rnd).st = st ∧ _ ∨ _
      unfold loginReply json_webs_set_login_security
      dsimp only
      rcases hwith pl.jsonLayout (-32700) _ (securityParams pl st wp) with ⟨hst, hret⟩ | ⟨params, hst, hret⟩
      · left
        rw [hret, if_neg (by simp)]
        exact ⟨hst, hret⟩
      · -- Only this handler draws a token, and only after a success.
        right
        split_ifs
        · exact ⟨_, params, true, _, congrArg (fun s : Server =>
            { s with jrd_webs_token_str := tokenStr rnd }) hst, hret, fun _ => rfl⟩
        · exact ⟨_, params, true, _, hst, hret, fun _ => rfl⟩
  | json_webs_force_login =>
      rcases hwith pl.jsonLayout (-32700) _ (json_webs_check_params pl.lib wp) with h | ⟨params, hst, hret⟩
      · exact Or.inl h
      · exact Or.inr ⟨_, params, true, _, hst, hret, fun _ => rfl⟩
  | json_webs_set_login =>
      rcases hwith pl.jsonLayout (-32700) _ (json_webs_check_params pl.lib wp) with h | ⟨params, hst, hret⟩
      · exact Or.inl h
      · exact Or.inr ⟨_, params, true, _, hst, hret, fun _ => rfl⟩
  | tn_webs_set_login =>
      show (tn_webs_set_login pl st wp).st = st ∧ _ ∨ _
      unfold loginReply tn_webs_set_login
      dsimp only
      by_cases href : tnRefused st wp = true
      · left
        rw [if_pos href]
        exact ⟨rfl, rfl⟩
      · rw [if_neg href]
        rcases hwith pl.tnLayout 3 _ (tn_webs_check_params wp) with h | ⟨params, hst, hret⟩
        · exact Or.inl h
        · exact Or.inr ⟨_, params, true, _, hst, hret, fun _ => rfl⟩

/-- `webs_set_login` by its result. -/
inductive LoginCase (st : Server) (wp : WebsRec) (blForce : Bool) :
    Server × WebsLoginState → Prop where
  | limit (h : loginLocked st = true) : LoginCase st wp blForce (st, .limit)
  | failed (h : loginLocked st = false) : LoginCase st wp blForce (loginFailed st, .failed)
  | alreadyLogin (h : loginLocked st = false)
      (hold : hasUserLogined st.g_sessionsTable = some (SM_getSessionKey wp)) :
      LoginCase st wp blForce (st, .alreadyLogin)
  | other (h : loginLocked st = false) (hforce : blForce = false) :
      LoginCase st wp blForce
        ({ st with
            g_sessionsTable := EGOSM_setSessionInfo st.g_sessionsTable wp .otherHasLogin }, .other)
  | sucess (h : loginLocked st = false)
      (hold : hasUserLogined st.g_sessionsTable ≠ some (SM_getSessionKey wp)) :
      LoginCase st wp blForce (loginSuccess st wp blForce, .sucess)

theorem webs_set_login_case (l : Layout) (st : Server) (wp : WebsRec) (params : LoginParams)
    (blForce : Bool) : LoginCase st wp blForce (webs_set_login l st wp params blForce) := by
  unfold webs_set_login
  by_cases hlock : loginLocked st = true
  · rw [if_pos hlock]
    exact .limit hlock
  · rw [if_neg hlock]
    have hopen : loginLocked st = false := by simpa using hlock
    rcases credentialsMatch l st.g_webs_data params with _ | _
    · exact .failed hopen
    · rw [if_neg (by decide)]
      rcases hold : hasUserLogined st.g_sessionsTable with _ | ip_browser_str
      · exact .sucess hopen (by rw [hold]; simp)
      · dsimp only
        by_cases hsame : ip_browser_str = sessionKey (EGOSM_getPeerInfo wp).1 (EGOSM_getPeerInfo wp).2
        · rw [if_pos hsame]
          exact .alreadyLogin hopen (by rw [hold, hsame]; rfl)
        · rw [if_neg hsame]
          rcases blForce with _ | _
          · exact .other hopen rfl
          · exact .sucess hopen (by rw [hold]; exact fun h => hsame (Option.some.inj h))

/-! ## The failure count and its timers -/

/-- The state without what the lock does not depend on. -/
def lockView (st : Server) : Server :=
  { st with g_sessionsTable := none, jrd_webs_token_str := [], login_check_timer := false }

/-- What does not look at the erased fields is the same for states of the same view. -/
theorem of_lockView {α : Sort*} (f : Server → α) (hf : ∀ s, f (lockView s) = f s) {s s' : Server}
    (h : lockView s' = lockView s) : f s' = f s := by
  rw [← hf s', h, hf s]

/-- The `n`-th thread ends if it runs now. -/
def threadEnds (pl : Platform) (st : Server) (n : ℕ) : Bool :=
  match st.fail_threads[n]? with
  | none => false
  | some th => (failThreadRun pl st th).2.isNone

/-- The recover timer runs out if it goes off now. -/
def recoverRunsOut (st : Server) : Bool :=
  match st.timer_check_login_time with
  | none => false
  | some next =>
      decide (next ≤ st.now) && decide (st.g_webs_data.webs_recover_time < st.login_state_val + 1)

/-- The event is one of the two unlock events. -/
def unlocks (pl : Platform) (st : Server) : Event → Bool
  | .failThread n => threadEnds pl st n
  | .recoverTick => recoverRunsOut st
  | _ => false

/-- What one event does to the failure count, its threads and its timer, up to
`lockView`. -/
inductive LockEffect (pl : Platform) (st : Server) (e : Event) (st' : Server) : Prop where
  | idle (hret : loginRet pl st e ≠ some .failed ∧ loginRet pl st e ≠ some .sucess)
      (hun : unlocks pl st e = false) (h : lockView st' = lockView st)
  | failed (hopen : loginLocked st = false) (hret : loginRet pl st e = some .failed)
      (h : lockView st' = lockView (loginFailed st))
  | sucess (hopen : loginLocked st = false) (hret : loginRet pl st e = some .sucess)
      (h : lockView st' = lockView { st with g_login_fail_count := 0 })
  | query (hret : loginRet pl st e = none) (hun : unlocks pl st e = false)
      (h : lockView st' = lockView (startRecoverTimer pl st))
  | thread (n : ℕ) (he : e = .failThread n) (h : lockView st' = lockView (failThreadStep pl st n))
  | recover (he : e = .recoverTick) (h : lockView st' = lockView (jrd_oem_webui_check_time pl st))
  | wait (d : ℕ) (he : e = .wait d) (h : lockView st' = lockView { st with now := st.now + d })

/-- **What a step does to the lock.** -/
theorem lock_effect (pl : Platform) (st : Server) (e : Event) :
    LockEffect pl st e (step pl st e) := by
  cases e with
  | login via wp =>
      rcases loginReply_cases pl st wp via with ⟨hst, hret⟩ | ⟨l, params, blForce, token, hst, hret, -⟩
      · refine .idle ?_ rfl (congrArg lockView hst)
        have hnone : loginRet pl st (.login via wp) = none := hret
        rw [hnone]
        exact ⟨by simp, by simp⟩
      · have hret' : loginRet pl st (.login via wp)
            = some (webs_set_login l st wp params blForce).2 := hret
        have hview : lockView (step pl st (.login via wp))
            = lockView (webs_set_login l st wp params blForce).1 :=
          (congrArg lockView hst).trans rfl
        -- The result decides which branch of the code ran.
        have hcase := webs_set_login_case l st wp params blForce
        generalize webs_set_login l st wp params blForce = r at hret' hview hcase
        cases hcase with
        | limit hlock => exact .idle ⟨by simp [hret'], by simp [hret']⟩ rfl hview
        | failed hopen => exact .failed hopen hret' hview
        | alreadyLogin hopen hold => exact .idle ⟨by simp [hret'], by simp [hret']⟩ rfl hview
        | other hopen hforce => exact .idle ⟨by simp [hret'], by simp [hret']⟩ rfl hview
        | sucess hopen hold =>
            refine .sucess hopen hret' (hview.trans ?_)
            unfold loginSuccess
            rcases blForce with _ | _ <;> rfl
  | tn_webs_set_logout wp =>
      refine .idle ⟨by simp [loginRet], by simp [loginRet]⟩ rfl ?_
      show lockView (tn_webs_set_logout st wp) = lockView st
      unfold tn_webs_set_logout
      split_ifs <;> rfl
  | json_webs_set_logout wp rnd =>
      refine .idle ⟨by simp [loginRet], by simp [loginRet]⟩ rfl ?_
      show lockView (json_webs_set_logout st wp rnd) = lockView st
      unfold json_webs_set_logout
      dsimp only
      split_ifs <;> rfl
  | json_webs_heart_beat wp =>
      refine .idle ⟨by simp [loginRet], by simp [loginRet]⟩ rfl ?_
      show lockView (json_webs_heart_beat st wp) = lockView st
      unfold json_webs_heart_beat
      dsimp only
      split_ifs <;> rfl
  | access wp => exact .idle ⟨by simp [loginRet], by simp [loginRet]⟩ rfl rfl
  | json_webs_get_login_state wp =>
      by_cases hpw : st.g_webs_data.webs_uipwstate = .notNeeded
      · refine .idle ⟨by simp [loginRet], by simp [loginRet]⟩ rfl ?_
        show lockView (json_webs_get_login_state pl st wp).1 = lockView st
        unfold json_webs_get_login_state
        dsimp only
        rw [if_pos hpw]
      · refine .query rfl rfl ?_
        show lockView (json_webs_get_login_state pl st wp).1 = lockView (startRecoverTimer pl st)
        unfold json_webs_get_login_state
        dsimp only
        rw [if_neg hpw]
  | failThread n => exact .thread n rfl rfl
  | recoverTick => exact .recover rfl rfl
  | sessionTick =>
      refine .idle ⟨by simp [loginRet], by simp [loginRet]⟩ rfl ?_
      show lockView (sessionTick st) = lockView st
      unfold sessionTick
      dsimp only
      split_ifs <;> rfl
  | wait d => exact .wait d rfl rfl

/-- **The invariant rule of the lock.** A property that does not look at the erased fields
holds after every event if each piece of code that acts on the lock keeps it. -/
theorem lock_rule {P : Server → Prop} (hview : ∀ s, P (lockView s) = P s) (pl : Platform)
    (st : Server) (hidle : P st)
    (hfailed : loginLocked st = false → P (loginFailed st))
    (hsucess : loginLocked st = false → P { st with g_login_fail_count := 0 })
    (hquery : P (startRecoverTimer pl st)) (hthread : ∀ n, P (failThreadStep pl st n))
    (hrecover : P (jrd_oem_webui_check_time pl st))
    (hwait : ∀ d : ℕ, P { st with now := st.now + d }) (e : Event) : P (step pl st e) := by
  have key : ∀ s, lockView (step pl st e) = lockView s → P s → P (step pl st e) :=
    fun s hv hs => (of_lockView P hview hv).mpr hs
  cases lock_effect pl st e with
  | idle _ _ hv => exact key _ hv hidle
  | failed hopen _ hv => exact key _ hv (hfailed hopen)
  | sucess hopen _ hv => exact key _ hv (hsucess hopen)
  | query _ _ hv => exact key _ hv hquery
  | thread n _ hv => exact key _ hv (hthread n)
  | recover _ hv => exact key _ hv hrecover
  | wait d _ hv => exact key _ hv (hwait d)

/-- The configuration never changes. -/
theorem step_g_webs_data (pl : Platform) (st : Server) (e : Event) :
    (step pl st e).g_webs_data = st.g_webs_data := by
  apply lock_rule (P := fun s => s.g_webs_data = st.g_webs_data) (fun _ => rfl) pl st
  · rfl
  · intro _
    unfold loginFailed
    dsimp only
    split_ifs <;> rfl
  · intro _
    rfl
  · unfold startRecoverTimer
    split_ifs <;> rfl
  · intro n
    unfold failThreadStep
    split
    · rfl
    · split <;> rfl
  · unfold jrd_oem_webui_check_time
    split
    · rfl
    · split_ifs <;> rfl
  · intro d
    rfl

theorem run_g_webs_data (pl : Platform) (st : Server) (es : List Event) :
    (run (step pl) st es).g_webs_data = st.g_webs_data :=
  run_invariant (I := fun s : Server => s.g_webs_data = st.g_webs_data)
    (fun s e h => (step_g_webs_data pl s e).trans h) rfl es

end TestCore.Webs
