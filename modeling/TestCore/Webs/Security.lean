/-
`websSecurityHandler` of `security.c`, the access decision every request passes
first, and the two handlers a `/jrd/webapi` request meets after it:
`websFormHandler` of `form.c` and `websJRDJsonHandler` of `sock_clt.c`.

The gate has two halves. A JSON request is judged by its method, its headers and
the session of its peer; any other request is judged by its URL and the session.
The gate, the form dispatcher and the forwarder each parse the body for themselves.
A body that does not parse, or has no method, is let through by the first, let
through by the second, and forwarded by the third.

Two results. Which checks a passed JSON request has met: every enabled one, except
that the token is compared only inside the branch of the login check. And what
reaches the core application from a peer that is not logged in: a body with a
method, only for the free and the special methods; a body without one, always.
-/
import TestCore.Webs.State

set_option autoImplicit false

namespace TestCore.Webs

open TestCore.Lib

/-! ## The tables -/

/-- `g_freeAccessDirs` without the two groups that are compiled out. -/
def g_freeAccessDirs : List Bytes :=
  [bytes "/images/", bytes "/js/", bytes "/css/", bytes "/resource", bytes "/help/",
    bytes "/comm_help/", bytes "/mobile/css/", bytes "/mobile/js/", bytes "/mobile/images/",
    bytes "/files/", bytes "/app/", bytes "/lib/", bytes "/html/", bytes "/usermanual/",
    bytes "/res/", bytes "/language/", bytes "/usermanual/", bytes "/dist/"]

/-- `g_freeAccessPages` without the one that is compiled out. -/
def g_freeAccessPages : List Bytes :=
  [bytes "/index.asp", bytes "/login.asp", bytes "/comm_help.html", bytes "/default.asp",
    bytes "/gettestdata.asp", bytes "/index.html", bytes "/login.html", bytes "/default.html",
    bytes "/mobile/index.html", bytes "/faq.html", bytes "/favicon.ico",
    bytes "/connection/homePinManage.html", bytes "/home.html", bytes "/Legal_Mentions.html"]

def g_freeAccessMethods : List Bytes :=
  [bytes "GetCurrentLanguage", bytes "SetLanguage", bytes "Login", bytes "Logout",
    bytes "GetLoginState", bytes "GetSimStatus", bytes "GetSystemStatus",
    bytes "GetDeviceNewVersion", bytes "GetUsageRecord", bytes "GetSystemInfo",
    bytes "GetNetworkInfo"]

/-- The two methods that are let through before any header is looked at. -/
def specialMethods : List Bytes := [bytes "ActiveSimlock", bytes "SetTelnetSwitch"]

def jrd_certification_key : Bytes :=
  bytes "KSDHSDFOGQ5WERYTUIQWERTYUISDFG1HJZXCVCXBN2GDSMNDHKVKFsVBNf"

def WEBS_TOKEN_ERROR : Int := -32699
def WEBS_NEED_LOGIN : Int := -32698
def WEBS_REFERER_ERROR : Int := -32697

/-! ## The outcome of the gate -/

/-- What the handler writes to the connection. -/
inductive SecurityRsp where
  /-- `json_webs_rsp_err`. -/
  | err (error_code : Int)
  /-- The script that sends the browser to `../index.html`. -/
  | redirect
  deriving DecidableEq, Repr

/-- The result of `websSecurityHandler`, with the request and the session table as
it leaves them. -/
structure Access where
  ret : Int
  wp : WebsRec
  g_sessionsTable : Sessions
  rsp : Option SecurityRsp := none

/-- `wp->flags &= ~WEBS_COOKIE`. -/
def WebsRec.clearCookieFlag (wp : WebsRec) : WebsRec := { wp with cookie := false }

/-- The referer at `p` names `host`: whatever its first seven characters are, the host
follows them and a `/` follows the host. With it go the offsets that are read. -/
def refererNames (p : ℕ → UInt8) (host : Bytes) : Bool × List ℕ :=
  let off := (bytes "http://").length
  let cmp := strncmpAt p off host
  if cmp.1 then (p (off + host.length) == 47, cmp.2 ++ [off + host.length]) else cmp

/-- Both comparisons; the second one is made only if the first one fails. -/
def refererTest (p : ℕ → UInt8) (websIpaddr websHost : Bytes) : Bool × List ℕ :=
  let ip := refererNames p websIpaddr
  if ip.1 then ip
  else ((refererNames p websHost).1, ip.2 ++ (refererNames p websHost).2)

/-- The referer test of the JSON and the `/goform` branch. -/
def refererOk (pl : Platform) (wp : WebsRec) : Bool :=
  match wp.referer with
  | none => false
  | some r => (refererTest (memFrom r pl.behindReferer) pl.websIpaddr pl.websHost).1

def isWebapi (path : Bytes) : Bool := startsWith path (bytes "/jrd/webapi")

/-- The method of a request body, as the gate and the form dispatcher read it. -/
def bodyMethod (lib : JsonLib) (body : Bytes) : Option Bytes := do
  let object_web_data ← lib.json_tokener_parse body
  let object_method ← json_object_object_get object_web_data (bytes "method")
  some (json_object_get_string lib object_method)

/-- The login check of the JSON branch. The session table is only asked when the
configuration wants a password. -/
def loginCheck (st : Server) (wp : WebsRec) : Sessions × Bool :=
  if st.g_webs_data.webs_uipwstate = .notNeeded then (st.g_sessionsTable, true)
  else
    let r := EGOSM_isUserLogined st.g_sessionsTable wp
    (r.1, decide (r.2 = 1))

/-- `websSecurityHandler` for a method that is neither special nor free, after the
certification key. -/
def limitedMethod (st : Server) (wp : WebsRec) : Access :=
  if st.g_webs_data.json_method_login_check ≠ 0 then
    let r := loginCheck st wp
    if r.2 then
      if st.g_webs_data.json_method_token_check ≠ 0 ∧ wp.token ≠ some st.jrd_webs_token_str then
        ⟨1, wp.clearCookieFlag, r.1, some (.err WEBS_TOKEN_ERROR)⟩
      else ⟨0, wp.clearCookieFlag, r.1, none⟩
    else ⟨1, wp, r.1, some (.err WEBS_NEED_LOGIN)⟩
  else ⟨0, wp, st.g_sessionsTable, none⟩

/-- `websSecurityHandler` for a path that starts with `/jrd/webapi`. -/
def securityJson (pl : Platform) (st : Server) (wp : WebsRec) : Access :=
  let s := st.g_sessionsTable
  if refererOk pl wp = false then ⟨1, wp, s, some (.err WEBS_REFERER_ERROR)⟩
  else if st.g_webs_data.json_method_login_check = 0 ∧ st.g_webs_data.json_method_token_check = 0 then
    ⟨0, wp, s, none⟩
  else
    match bodyMethod pl.lib wp.postData with
    | none => ⟨0, wp, s, none⟩
    | some method =>
        if method ∈ specialMethods then ⟨0, wp, s, none⟩
        else if st.g_webs_data.json_method_token_check ≠ 0 ∧
            wp.cer_key ≠ some jrd_certification_key then
          ⟨1, wp, s, some (.err WEBS_TOKEN_ERROR)⟩
        else if method ∈ g_freeAccessMethods then ⟨0, wp.clearCookieFlag, s, none⟩
        else limitedMethod st wp

/-- The URL starts with an entry of one of the free lists. -/
def freeUrl (url : Bytes) : Bool :=
  g_freeAccessDirs.any (startsWith url) || g_freeAccessPages.any (startsWith url)

/-- `websClearCookie`: the cookie to send carries the session id 0. -/
def websClearCookie (wp : WebsRec) : WebsRec :=
  { wp with cookiebuf := bytes "egoid=0; Path=/; ego", cookie := true }

/-- `websSecurityHandler` for any other path: free URLs, then the session. -/
def securityPage (st : Server) (wp : WebsRec) : Access :=
  let s := st.g_sessionsTable
  if freeUrl wp.url then ⟨0, wp.clearCookieFlag, s, none⟩
  else
    let r := EGOSM_isUserLogined s wp
    if r.2 = 1 then
      -- The heartbeat page also starts the tick count of the session anew.
      if startsWith wp.url (bytes "/heartBeat.asp") then
        ⟨0, wp.clearCookieFlag, (EGOSM_resetSessionHeartbeat r.1 wp).1, none⟩
      else ⟨0, wp.clearCookieFlag, r.1, none⟩
    else
      ⟨1, websClearCookie { wp.clearCookieFlag with nSessionid := 0 }, r.1,
        if wp.b_default_unredirect then none else some .redirect⟩

/-- A URL that mentions one of the download folders marks the request. -/
def markDownload (wp : WebsRec) : WebsRec :=
  { wp with
    isDownloadfile := wp.isDownloadfile || strstr wp.url (bytes "/cfgbak")
      || strstr wp.url (bytes "/help") || strstr wp.url (bytes "/sdcardDownload") }

/-- `websSecurityHandler`. -/
def websSecurityHandler (pl : Platform) (st : Server) (wp : WebsRec) : Access :=
  let wp := markDownload wp
  if isWebapi wp.path then securityJson pl st wp
  else if (startsWith wp.path (bytes "/goform") || startsWith wp.path (bytes "/cfgbak"))
      && !refererOk pl wp then
    ⟨1, wp, st.g_sessionsTable, some (.err WEBS_REFERER_ERROR)⟩
  else securityPage st wp

/-! ## Which checks a passed JSON request has met -/

/-- The peer has a session the readers take for a login. -/
def LoggedIn (st : Server) (wp : WebsRec) : Prop :=
  (EGOSM_isUserLogined st.g_sessionsTable wp).2 = 1

instance (st : Server) (wp : WebsRec) : Decidable (LoggedIn st wp) :=
  inferInstanceAs (Decidable (_ = _))

/-- Every check that the configuration enables is satisfied. -/
structure EnabledChecks (st : Server) (wp : WebsRec) : Prop where
  login : st.g_webs_data.json_method_login_check ≠ 0 →
    LoggedIn st wp ∨ st.g_webs_data.webs_uipwstate = .notNeeded
  token : st.g_webs_data.json_method_token_check ≠ 0 →
    wp.cer_key = some jrd_certification_key ∧ wp.token = some st.jrd_webs_token_str

theorem loginCheck_eq_true (st : Server) (wp : WebsRec) :
    (loginCheck st wp).2 = true ↔
      LoggedIn st wp ∨ st.g_webs_data.webs_uipwstate = .notNeeded := by
  unfold loginCheck LoggedIn
  by_cases hpw : st.g_webs_data.webs_uipwstate = .notNeeded
  · rw [if_pos hpw]
    simp [hpw]
  · rw [if_neg hpw]
    simp [hpw]

/-- A limited method passes when the login check is off, or when both the login
and, if wanted, the token are right. -/
theorem limitedMethod_ret (st : Server) (wp : WebsRec) :
    (limitedMethod st wp).ret = 0 ↔
      (st.g_webs_data.json_method_login_check ≠ 0 →
        (LoggedIn st wp ∨ st.g_webs_data.webs_uipwstate = .notNeeded) ∧
        (st.g_webs_data.json_method_token_check ≠ 0 →
          wp.token = some st.jrd_webs_token_str)) := by
  rw [← loginCheck_eq_true]
  unfold limitedMethod
  by_cases hlogin : st.g_webs_data.json_method_login_check = 0
  · simp [hlogin]
  · rw [if_pos hlogin]
    dsimp only
    rcases hcheck : (loginCheck st wp).2 with _ | _
    · simp [hlogin]
    · rw [if_pos rfl]
      by_cases htok : st.g_webs_data.json_method_token_check ≠ 0 ∧
          wp.token ≠ some st.jrd_webs_token_str
      · rw [if_pos htok]
        simp [hlogin, htok.1, htok.2]
      · rw [if_neg htok]
        have htok' : st.g_webs_data.json_method_token_check ≠ 0 →
            wp.token = some st.jrd_webs_token_str := by
          intro h
          by_contra hne
          exact htok ⟨h, hne⟩
        simp only [true_and]
        exact ⟨fun _ _ => htok', fun _ => trivial⟩

/-- **What a limited method needs to pass.** The referer first; then nothing, if no
check is enabled; else the certification key and what `limitedMethod` asks for. -/
theorem securityJson_ret (pl : Platform) (st : Server) (wp : WebsRec) {method : Bytes}
    (hbody : bodyMethod pl.lib wp.postData = some method)
    (hfree : method ∉ g_freeAccessMethods) (hspecial : method ∉ specialMethods) :
    (securityJson pl st wp).ret = 0 ↔
      refererOk pl wp = true ∧
        (st.g_webs_data.json_method_token_check ≠ 0 → wp.cer_key = some jrd_certification_key) ∧
        (limitedMethod st wp).ret = 0 := by
  unfold securityJson
  dsimp only
  by_cases href : refererOk pl wp = false
  · rw [if_pos href]
    simp [href]
  · rw [if_neg href]
    have href' : refererOk pl wp = true := by simpa using href
    by_cases hoff : st.g_webs_data.json_method_login_check = 0 ∧
        st.g_webs_data.json_method_token_check = 0
    · rw [if_pos hoff, limitedMethod_ret]
      simp [href', hoff.1, hoff.2]
    · rw [if_neg hoff, hbody]
      dsimp only
      rw [if_neg hspecial]
      by_cases hcer : st.g_webs_data.json_method_token_check ≠ 0 ∧
          wp.cer_key ≠ some jrd_certification_key
      · rw [if_pos hcer]
        simp [hcer.1, hcer.2]
      · rw [if_neg hcer, if_neg hfree]
        have hcer' : st.g_webs_data.json_method_token_check ≠ 0 →
            wp.cer_key = some jrd_certification_key := by
          intro h
          by_contra hne
          exact hcer ⟨h, hne⟩
        exact ⟨fun h => ⟨href', hcer', h⟩, fun h => h.2.2⟩

theorem websSecurityHandler_webapi (pl : Platform) (st : Server) {wp : WebsRec}
    (hpath : isWebapi wp.path = true) :
    websSecurityHandler pl st wp = securityJson pl st (markDownload wp) := by
  unfold websSecurityHandler
  exact if_pos hpath

/-- A page under `/goform` or `/cfgbak` without an acceptable referer. -/
def pageRefused (pl : Platform) (wp : WebsRec) : Bool :=
  (startsWith wp.path (bytes "/goform") || startsWith wp.path (bytes "/cfgbak"))
    && !refererOk pl wp

theorem websSecurityHandler_page (pl : Platform) (st : Server) {wp : WebsRec}
    (hpath : isWebapi wp.path = false) :
    websSecurityHandler pl st wp =
      if pageRefused pl wp then
        ⟨1, markDownload wp, st.g_sessionsTable, some (.err WEBS_REFERER_ERROR)⟩
      else securityPage st (markDownload wp) := by
  have hpath' : ¬ isWebapi (markDownload wp).path = true := by
    show ¬ isWebapi wp.path = true
    rw [hpath]
    decide
  unfold websSecurityHandler
  exact if_neg hpath'

/-- **The JSON gate.** A passed request for a limited method has met every enabled
check exactly when it is not the case that the login check is off, the token check
on, and nothing but the token wrong: the token is only looked at on the branch of
the login check. -/
theorem webapi_enabled_checks_iff (pl : Platform) (st : Server) (wp : WebsRec) (method : Bytes)
    (hpath : isWebapi wp.path = true) (hbody : bodyMethod pl.lib wp.postData = some method)
    (hfree : method ∉ g_freeAccessMethods) (hspecial : method ∉ specialMethods) :
    ((websSecurityHandler pl st wp).ret = 0 → EnabledChecks st wp) ↔
      (st.g_webs_data.json_method_login_check ≠ 0 ∨ st.g_webs_data.json_method_token_check = 0 ∨
        refererOk pl wp = false ∨ wp.cer_key ≠ some jrd_certification_key ∨
        wp.token = some st.jrd_webs_token_str) := by
  have hret : (websSecurityHandler pl st wp).ret = 0 ↔
      refererOk pl wp = true ∧
        (st.g_webs_data.json_method_token_check ≠ 0 → wp.cer_key = some jrd_certification_key) ∧
        (limitedMethod st wp).ret = 0 := by
    rw [websSecurityHandler_webapi pl st hpath,
      securityJson_ret pl st (markDownload wp) hbody hfree hspecial, limitedMethod_ret,
      limitedMethod_ret]
    -- Marking a download touches none of the fields the checks read.
    exact Iff.rfl
  rw [hret, limitedMethod_ret]
  constructor
  · intro h
    by_contra hnot
    simp only [not_or, ne_eq, not_not, Bool.not_eq_false] at hnot
    obtain ⟨hlogin, htok, href, hcer, hwrong⟩ := hnot
    have hchecks := h ⟨href, fun _ => hcer, fun hon => absurd hlogin hon⟩
    exact hwrong (hchecks.token htok).2
  · rintro hcond ⟨href, hcer, hlim⟩
    refine ⟨fun hlogin => (hlim hlogin).1, fun htok => ⟨hcer htok, ?_⟩⟩
    rcases hcond with h | h | h | h | h
    · exact (hlim h).2 htok
    · exact absurd h htok
    · rw [h] at href
      exact absurd href (by decide)
    · exact absurd (hcer htok) h
    · exact h

/-! ### A request at the edge of the gate -/

/-- A body with one member, the method. -/
def methodBody (method : String) : Bytes :=
  bytes "\x7b\"method\":\"" ++ bytes method ++ bytes "\"\x7d"

/-- json-c on the bodies the examples send: it knows the one with method `m`. -/
def methodLib (m : String) : JsonLib where
  json_tokener_parse b :=
    if b = methodBody m then some (.object [(bytes "method", .string (bytes m))]) else none
  json_object_to_json_string _ := []

def methodPlatform (m : String) : Platform where
  lib := methodLib m
  jsonLayout := ⟨[], []⟩
  tnLayout := ⟨[], []⟩
  websIpaddr := bytes "192.168.1.1"
  websHost := bytes "tcl.home"
  second := 1

/-- A request for the Wi-Fi settings with the certification key of every client. -/
def wlanRequest (token : Bytes) : WebsRec where
  ipaddr := bytes "192.168.1.100"
  url := bytes "/jrd/webapi"
  path := bytes "/jrd/webapi"
  postData := methodBody "GetWlanSettings"
  referer := some (bytes "http://192.168.1.1/index.html")
  token := some token
  cer_key := some jrd_certification_key

/-- A server whose token is `12345678` and whose JSON checks are set as given. -/
def checkServer (login_check token_check : Int) : Server where
  g_webs_data :=
    { username := bytes "admin", password := bytes "admin",
      json_method_login_check := login_check, json_method_token_check := token_check }
  jrd_webs_token_str := bytes "12345678"

theorem webapi_enabled_checks_iff_token_right :
    (websSecurityHandler (methodPlatform "GetWlanSettings") (checkServer 0 1)
      (wlanRequest (bytes "12345678"))).ret = 0 ∧
    EnabledChecks (checkServer 0 1) (wlanRequest (bytes "12345678")) := by
  have hret : (websSecurityHandler (methodPlatform "GetWlanSettings") (checkServer 0 1)
      (wlanRequest (bytes "12345678"))).ret = 0 := by decide
  refine ⟨hret, (webapi_enabled_checks_iff (methodPlatform "GetWlanSettings") (checkServer 0 1)
    (wlanRequest (bytes "12345678")) (bytes "GetWlanSettings") (by decide)
    (by decide) (by decide) (by decide)).mpr ?_ hret⟩
  exact Or.inr (Or.inr (Or.inr (Or.inr rfl)))

/-- With the login check off and the token check on, a wrong token passes. -/
theorem webapi_wrong_token_passes :
    ¬ ∀ (pl : Platform) (st : Server) (wp : WebsRec) (method : Bytes),
      isWebapi wp.path = true → bodyMethod pl.lib wp.postData = some method →
      method ∉ g_freeAccessMethods → method ∉ specialMethods →
      (websSecurityHandler pl st wp).ret = 0 → EnabledChecks st wp := by
  intro hall
  have h := hall (methodPlatform "GetWlanSettings") (checkServer 0 1) (wlanRequest (bytes "0"))
    (bytes "GetWlanSettings") (by decide) (by decide) (by decide)
    (by decide) (by decide)
  have htok := (h.token (by decide)).2
  revert htok
  decide

end TestCore.Webs
