/-
What the server reports about the lock, and what it does.

Three functions look at `g_login_fail_count`. `webs_set_login` refuses an attempt when the
count has reached the limit and `lock_web_ui` is on. `json_webs_get_login_state` reports the
state `USED_OUT` and the attempts that are left, and `webs_get_login_remain_info` reports
the attempts that are left, both without a look at `lock_web_ui`.

With the lock on the three agree in every reachable state, since the count then stays
between zero and the limit. With the lock off no attempt is ever refused, the count goes on
growing past the limit, and the number of attempts that are left is whatever it likes: the
reports are about a lock that is not there.
-/
import TestCore.Webs.Lockout

set_option autoImplicit false

namespace TestCore.Webs

open TestCore.Lib

/-! ## What is enforced -/

/-- One call of `webs_set_login`. -/
structure LoginAttempt where
  l : Layout
  wp : WebsRec
  params : LoginParams
  blForce : Bool

/-- `webs_set_login` on an attempt. -/
def LoginAttempt.on (a : LoginAttempt) (st : Server) : Server × WebsLoginState :=
  webs_set_login a.l st a.wp a.params a.blForce

/-- The attempt has wrong credentials. -/
def LoginAttempt.Wrong (g : WebsData) (a : LoginAttempt) : Prop :=
  credentialsMatch a.l g a.params = false

/-- What attempts in a row are answered with. -/
def attemptResults : Server → List LoginAttempt → List WebsLoginState
  | _, [] => []
  | st, a :: attempts => (a.on st).2 :: attemptResults (a.on st).1 attempts

/-- Of wrong attempts in a row, `n` are compared, and every further one meets the limit. -/
def ComparedBeforeLimit (st : Server) (n : ℕ) : Prop :=
  ∀ attempts : List LoginAttempt, (∀ a ∈ attempts, a.Wrong st.g_webs_data) →
    attemptResults st attempts
      = List.replicate (min n attempts.length) .failed ++
          List.replicate (attempts.length - n) .limit

theorem LoginAttempt.on_wrong {a : LoginAttempt} {st : Server} (h : a.Wrong st.g_webs_data) :
    a.on st = if loginLocked st then (st, .limit) else (loginFailed st, .failed) := by
  have hwrong : (!credentialsMatch a.l st.g_webs_data a.params) = true := by
    rw [h]
    rfl
  unfold LoginAttempt.on webs_set_login
  rw [if_pos hwrong]

theorem loginFailed_g_webs_data (st : Server) :
    (loginFailed st).g_webs_data = st.g_webs_data := by
  unfold loginFailed
  dsimp only
  split_ifs <;> rfl

theorem loginLocked_eq_true_iff (st : Server) :
    loginLocked st = true ↔ st.g_webs_data.lock_web_ui ≠ 0 ∧
      st.g_webs_data.max_retry_times ≤ st.g_login_fail_count := by
  unfold loginLocked
  rw [Bool.and_eq_true, bne_iff_ne, decide_eq_true_iff]

/-- With the lock on, what is left to the limit is compared. -/
theorem comparedBeforeLimit_of_lock {st : Server} (hlock : st.g_webs_data.lock_web_ui ≠ 0) :
    ComparedBeforeLimit st
      (st.g_webs_data.max_retry_times - st.g_login_fail_count).toNat := by
  intro attempts hwrong
  induction attempts generalizing st with
  | nil => simp [attemptResults]
  | cons a attempts ih =>
      have ha := LoginAttempt.on_wrong (hwrong a (by simp))
      have hrest : ∀ b ∈ attempts, b.Wrong st.g_webs_data :=
        fun b hb => hwrong b (List.mem_cons_of_mem a hb)
      unfold attemptResults
      rw [ha, List.length_cons]
      by_cases hfull : st.g_webs_data.max_retry_times ≤ st.g_login_fail_count
      · have hnone : (st.g_webs_data.max_retry_times - st.g_login_fail_count).toNat = 0 := by omega
        have hnext := ih hlock hrest
        rw [hnone, Nat.zero_min, List.replicate_zero, List.nil_append, Nat.sub_zero] at hnext
        rw [if_pos ((loginLocked_eq_true_iff st).mpr ⟨hlock, hfull⟩), hnext, hnone, Nat.zero_min,
          Nat.sub_zero]
        rfl
      · -- One of the attempts that are left is used up.
        obtain ⟨k, hk⟩ : ∃ k : ℕ, st.g_webs_data.max_retry_times - st.g_login_fail_count = k + 1 :=
          ⟨(st.g_webs_data.max_retry_times - st.g_login_fail_count - 1).toNat, by omega⟩
        have hthis : (st.g_webs_data.max_retry_times - st.g_login_fail_count).toNat = k + 1 := by
          omega
        have hleft : ((loginFailed st).g_webs_data.max_retry_times -
            (loginFailed st).g_login_fail_count).toNat = k := by
          rw [loginFailed_g_webs_data, loginFailed_count]
          omega
        have hnext := @ih (loginFailed st) (by rw [loginFailed_g_webs_data]; exact hlock)
          (by rw [loginFailed_g_webs_data]; exact hrest)
        rw [hleft] at hnext
        rw [if_neg (fun h => hfull ((loginLocked_eq_true_iff st).mp h).2), hnext, hthis,
          Nat.succ_min_succ, List.replicate_succ, Nat.add_sub_add_right]
        rfl

/-- With the lock off, every wrong attempt is compared. -/
theorem attemptResults_of_unlocked {st : Server} (hlock : st.g_webs_data.lock_web_ui = 0)
    {attempts : List LoginAttempt} (hwrong : ∀ a ∈ attempts, a.Wrong st.g_webs_data) :
    attemptResults st attempts = List.replicate attempts.length .failed := by
  induction attempts generalizing st with
  | nil => rfl
  | cons a attempts ih =>
      have ha := LoginAttempt.on_wrong (hwrong a (by simp))
      have hopen : ¬ loginLocked st = true := fun h =>
        ((loginLocked_eq_true_iff st).mp h).1 hlock
      have hnext := @ih (loginFailed st) (by rw [loginFailed_g_webs_data]; exact hlock)
        (by
          rw [loginFailed_g_webs_data]
          exact fun b hb => hwrong b (List.mem_cons_of_mem a hb))
      unfold attemptResults
      rw [ha, if_neg hopen, hnext, List.length_cons, List.replicate_succ]

/-- There are always wrong credentials to try. -/
theorem exists_wrong_attempt (g : WebsData) : ∃ a : LoginAttempt, a.Wrong g := by
  -- The empty user name is wrong unless it is the stored one, and then another is.
  obtain ⟨u, hu, hlen, hne⟩ : ∃ u : Bytes, NulFree u ∧ u.length < MAX_PARAM_LENGTH ∧
      u ≠ g.username := by
    by_cases hempty : g.username = []
    · exact ⟨[1], by simp [NulFree], by decide, by simp [hempty]⟩
    · exact ⟨[], by simp [NulFree], by decide, fun h => hempty h.symm⟩
  refine ⟨⟨⟨[], []⟩, { ipaddr := [] }, LoginParams.store u [], true⟩, ?_⟩
  unfold LoginAttempt.Wrong credentialsMatch
  dsimp only
  rw [LoginParams.str0_store hu hlen]
  simp [hne]

theorem not_comparedBeforeLimit_of_unlocked {st : Server}
    (hlock : st.g_webs_data.lock_web_ui = 0) (n : ℕ) : ¬ ComparedBeforeLimit st n := by
  intro h
  obtain ⟨a, ha⟩ := exists_wrong_attempt st.g_webs_data
  have hwrong : ∀ b ∈ List.replicate (n + 1) a, b.Wrong st.g_webs_data := by
    intro b hb
    rw [List.eq_of_mem_replicate hb]
    exact ha
  have hall := h _ hwrong
  rw [attemptResults_of_unlocked hlock hwrong, List.length_replicate, Nat.add_sub_cancel_left] at hall
  have hmem : WebsLoginState.limit ∈ List.replicate (n + 1) WebsLoginState.failed := by
    rw [hall]
    simp
  cases List.eq_of_mem_replicate hmem

/-! ## What is reported -/

/-- The peer is not logged in: a password is needed, and the peer has no session. -/
def NotLoggedIn (st : Server) (wp : WebsRec) : Prop :=
  st.g_webs_data.webs_uipwstate ≠ .notNeeded ∧
    EGOSM_getSessionID st.g_sessionsTable wp ≠ SESSIONID_FOR_LOGIN_SUCCESS

instance (st : Server) (wp : WebsRec) : Decidable (NotLoggedIn st wp) :=
  inferInstanceAs (Decidable (_ ∧ _))

/-- The reports of a state agree with what the next attempts are answered. -/
structure ReportMatches (pl : Platform) (st : Server) : Prop where
  /-- `USED_OUT` is reported exactly when the next attempt meets the limit. -/
  state : ∀ wp, NotLoggedIn st wp → ∀ a : LoginAttempt,
    ((json_webs_get_login_state pl st wp).2.State = .usedOut ↔
      (a.on (json_webs_get_login_state pl st wp).1).2 = .limit)
  /-- Both numbers are that of the wrong attempts still compared. -/
  remaining : ∃ n : ℕ, ComparedBeforeLimit st n ∧
    (∀ wp, (json_webs_get_login_state pl st wp).2.LoginRemainingTimes = n) ∧
    (webs_get_login_remain_info st).loginCountRemain = n

theorem LoginAttempt.on_limit_iff (a : LoginAttempt) (st : Server) :
    (a.on st).2 = .limit ↔ loginLocked st = true := by
  have hcase := webs_set_login_case a.l st a.wp a.params a.blForce
  unfold LoginAttempt.on
  generalize webs_set_login a.l st a.wp a.params a.blForce = r at hcase
  cases hcase with
  | limit h => simp [h]
  | failed h => simp [h]
  | alreadyLogin h hold => simp [h]
  | other h hforce => simp [h]
  | sucess h hold => simp [h]

theorem startRecoverTimer_g_webs_data (pl : Platform) (st : Server) :
    (startRecoverTimer pl st).g_webs_data = st.g_webs_data := by
  unfold startRecoverTimer
  split_ifs <;> rfl

/-- A state query leaves the count and the configuration alone. -/
theorem get_login_state_keeps (pl : Platform) (st : Server) (wp : WebsRec) :
    (json_webs_get_login_state pl st wp).1.g_login_fail_count = st.g_login_fail_count ∧
      (json_webs_get_login_state pl st wp).1.g_webs_data = st.g_webs_data := by
  unfold json_webs_get_login_state
  dsimp only
  split_ifs
  · exact ⟨rfl, rfl⟩
  · exact ⟨startRecoverTimer_count pl st, startRecoverTimer_g_webs_data pl st⟩

theorem get_login_state_remaining (pl : Platform) (st : Server) (wp : WebsRec) :
    (json_webs_get_login_state pl st wp).2.LoginRemainingTimes
      = st.g_webs_data.max_retry_times - st.g_login_fail_count := by
  obtain ⟨hcount, hdata⟩ := get_login_state_keeps pl st wp
  rw [← hcount, ← hdata]
  rfl

theorem get_login_state_usedOut {pl : Platform} {st : Server} {wp : WebsRec}
    (h : NotLoggedIn st wp) :
    (json_webs_get_login_state pl st wp).2.State = .usedOut ↔
      st.g_webs_data.max_retry_times ≤ st.g_login_fail_count := by
  unfold json_webs_get_login_state
  dsimp only
  rw [if_neg h.1, if_neg h.2]
  split_ifs with hfull
  · simp [hfull]
  · simp [hfull]

/-- **The reports are right in every reachable state when the lock is on, and in none when it
is off.** -/
theorem lock_report_matches_iff (pl : Platform) (g : WebsData) (hpos : 1 ≤ g.max_retry_times)
    (es : List Event) :
    ReportMatches pl (run (step pl) (Server.init g) es) ↔ g.lock_web_ui ≠ 0 := by
  have hdata := run_g_webs_data pl (Server.init g) es
  constructor
  · rintro h hoff
    obtain ⟨n, hn, -⟩ := h.remaining
    refine not_comparedBeforeLimit_of_unlocked ?_ n hn
    rw [hdata]
    exact hoff
  · intro hlock
    have hrange : CountInRange (run (step pl) (Server.init g) es) :=
      run_invariant (fun s e h => h.step e) ⟨hlock, hpos, le_refl 0, by
        have : (0 : ℤ) ≤ g.max_retry_times := by omega
        exact this⟩ es
    generalize run (step pl) (Server.init g) es = st at hrange
    obtain ⟨hlock, hpos, hnonneg, hle⟩ := hrange
    refine ⟨?_, ?_⟩
    · intro wp hwp a
      obtain ⟨hcount, hconf⟩ := get_login_state_keeps pl st wp
      rw [get_login_state_usedOut hwp, LoginAttempt.on_limit_iff, loginLocked_eq_true_iff, hcount,
        hconf]
      exact ⟨fun h => ⟨hlock, h⟩, fun h => h.2⟩
    · refine ⟨_, comparedBeforeLimit_of_lock hlock, ?_, ?_⟩
      · intro wp
        rw [get_login_state_remaining]
        omega
      · unfold webs_get_login_remain_info
        dsimp only
        split_ifs
        · omega
        · omega

/-- A limit of two and one wrong guess: one attempt is left. -/
theorem lock_report_matches_one_left :
    ReportMatches lockPlatform (run (step lockPlatform) (lockServer 2 60 0)
      [attempt "192.168.1.100" "12345" true]) :=
  (lock_report_matches_iff lockPlatform _ (by decide) [attempt "192.168.1.100" "12345" true]).mpr
    (by decide)

/-- The same server with `lock_web_ui` off. -/
def unlockedData : WebsData := { (lockServer 1 60 0).g_webs_data with lock_web_ui := 0 }

/-- With the lock off and a limit of one, two wrong guesses leave `-1` attempts and the state
`USED_OUT`, and the right password still logs in. -/
theorem lock_report_without_lock :
    (webs_get_login_remain_info (run (step lockPlatform) (Server.init unlockedData)
      [attempt "192.168.1.100" "12345" true, attempt "192.168.1.100" "admin" true])).loginCountRemain
        = -1 ∧
    ¬ ∀ (pl : Platform) (g : WebsData), 1 ≤ g.max_retry_times → ∀ es,
      ReportMatches pl (run (step pl) (Server.init g) es) := by
  refine ⟨by decide, fun hall => ?_⟩
  have h := (hall lockPlatform unlockedData (by decide)
    [attempt "192.168.1.100" "12345" true, attempt "192.168.1.100" "admin" true]).state
    { ipaddr := bytes "192.168.1.100" } (by decide)
    ⟨⟨[], []⟩, { ipaddr := bytes "192.168.1.100" },
      LoginParams.store (bytes "admin") (bytes "secret"), true⟩
  revert h
  decide

end TestCore.Webs
