/-
What happens to a request: `websParseFirst` keeps its URL, `websUrlHandlerRequest`
cleans it up and runs the registered handlers over it in order.

The handlers of this file are the ones a `/jrd/webapi` request meets --
`websSecurityHandler`, `websFormHandler`, `websJRDJsonHandler` -- and the first step
of the default handler, which turns the path into a file.

Two results about a peer that is not logged in. A body it posts to `/jrd/webapi` gets
to the core application only with a free or special method, provided the body has a
method at all. A URL it sends gets it a file under the free lists, provided the `..`
segments of the path do not lead out of them.
-/
import TestCore.Webs.Security
import TestCore.Webs.Url

set_option autoImplicit false

namespace TestCore.Webs

open TestCore.Lib

/-! ## The handlers -/

/-- The URL fields `websParseFirst` fills in. -/
def websParseFirst (wp : WebsRec) (url : Bytes) : WebsRec :=
  let parts := websUrlParse url
  { wp with url := url, path := parts.path, query := parts.query }

/-- The first lines of `websUrlHandlerRequest`. -/
def condenseRequest (wp : WebsRec) : WebsRec :=
  { wp with
    path := websCondenseMultipleChars 47 wp.path, url := websCondenseMultipleChars 47 wp.url }

/-- A path that is answered with `400 Bad request`. -/
def badRequest (wp : WebsRec) : Bool := wp.path.head? != some 47 || wp.path.contains 92

/-- The names of `webs_post_req_tbl`, which is what `formSymtab` holds. -/
def webs_post_req_tbl : List Bytes :=
  [bytes "GetLoginState", bytes "Login", bytes "ForceLogin", bytes "Logout",
    bytes "ChangePassword", bytes "HeartBeat", bytes "getLoginState", bytes "setLogin",
    bytes "setLogout", bytes "setPassword", bytes "setUsernameAndPW",
    bytes "getPasswordSaveInfo", bytes "setPasswordSaveInfo",
    bytes "getPasswordChangeWarningFlag", bytes "getLoginRemainInfo", bytes "saveDmesg",
    bytes "startCatchKmsg", bytes "getToken", bytes "setWebsLog", bytes "GetUIPwState",
    bytes "InitPwSecurity", bytes "LoginSecurity", bytes "ChangePwSecurity",
    bytes "GetwifiPasswordChangeFlag", bytes "SetwifiPasswordChangeFlag",
    bytes "GetPasswordChangeFlag", bytes "SetPasswordChangeFlag", bytes "saveDmesg",
    bytes "startCatchKmsg"]

def FNAMESIZE : ℕ := 254

/-- The form name of a `/goform` path: between the second slash and the third. -/
def goformName (path : Bytes) : Option Bytes :=
  match ((path.take FNAMESIZE).drop 1).dropWhile (· ≠ 47) with
  | [] => none
  | _ :: rest => some (rest.takeWhile (· ≠ 47))

/-- How `websFormHandler` leaves a request. -/
inductive FormResult where
  /-- It returned 0. -/
  | passed
  | missingName
  /-- It called the function of that name. -/
  | called (formName : Bytes)
  deriving DecidableEq, Repr

/-- A name without a form function goes to `websLocalappApiHandler`, which picks the
socket the request is forwarded on and returns 0 whichever it is. -/
def callForm (formName : Bytes) : FormResult :=
  if formName ∈ webs_post_req_tbl then .called formName else .passed

/-- `websFormHandler`. -/
def websFormHandler (lib : JsonLib) (wp : WebsRec) : FormResult :=
  if isWebapi wp.path then
    match bodyMethod lib wp.postData with
    | none => .passed
    | some formName => callForm formName
  else if startsWith wp.path (bytes "/goform") then
    match goformName wp.path with
    | none => .missingName
    | some formName => callForm formName
  else .passed

/-- What becomes of a request. -/
inductive Handled where
  | badRequest
  | denied (rsp : Option SecurityRsp)
  | form (r : FormResult)
  /-- `websJRDJsonHandler` put these bytes on the queue of the core application. -/
  | queued (data_buf : Bytes)
  /-- It is left to the handlers behind these. -/
  | passed
  deriving DecidableEq

/-- `websJRDJsonHandler`, registered for `/jrd/webapi`: the body and a terminator. -/
def websJRDJsonHandler (wp : WebsRec) : Handled := .queued (wp.postData ++ [0])

/-- `websUrlHandlerRequest`, up to and including `websJRDJsonHandler`. -/
def websUrlHandlerRequest (pl : Platform) (st : Server) (wp : WebsRec) : Handled × Sessions :=
  let wp := condenseRequest wp
  if badRequest wp then (.badRequest, st.g_sessionsTable)
  else
    let access := websSecurityHandler pl st wp
    if access.ret ≠ 0 then (.denied access.rsp, access.g_sessionsTable)
    else
      match websFormHandler pl.lib access.wp with
      | .passed =>
          (if isWebapi access.wp.path then websJRDJsonHandler access.wp else .passed,
            access.g_sessionsTable)
      | r => (.form r, access.g_sessionsTable)

/-! ## What an unauthenticated peer can forward -/

/-- The gate changes only what it answers with. -/
theorem securityJson_keeps (pl : Platform) (st : Server) (wp : WebsRec) :
    (securityJson pl st wp).wp.path = wp.path ∧
      (securityJson pl st wp).wp.postData = wp.postData := by
  have hlimited : (limitedMethod st wp).wp.path = wp.path ∧
      (limitedMethod st wp).wp.postData = wp.postData := by
    unfold limitedMethod
    dsimp only
    split_ifs <;> exact ⟨rfl, rfl⟩
  unfold securityJson
  dsimp only
  rcases bodyMethod pl.lib wp.postData with _ | method
  · dsimp only
    split_ifs <;> exact ⟨rfl, rfl⟩
  · dsimp only
    split_ifs <;> first | exact hlimited | exact ⟨rfl, rfl⟩

/-- The body is a JSON object with a method that needs no login. -/
def OpenMethod (lib : JsonLib) (body : Bytes) : Prop :=
  ∃ members method, lib.json_tokener_parse body = some (.object members) ∧
    bodyMethod lib body = some method ∧
    (method ∈ g_freeAccessMethods ∨ method ∈ specialMethods)

/-- A body with a method is a JSON object. -/
theorem bodyMethod_object {lib : JsonLib} {body method : Bytes}
    (h : bodyMethod lib body = some method) :
    ∃ members, lib.json_tokener_parse body = some (.object members) := by
  obtain ⟨j, hj, hrest⟩ := Option.bind_eq_some_iff.mp h
  obtain ⟨m, hm, -⟩ := Option.bind_eq_some_iff.mp hrest
  cases j with
  | object members => exact ⟨members, hj⟩
  | null => cases hm
  | bool b => cases hm
  | int i => cases hm
  | double text => cases hm
  | string s => cases hm
  | array elems => cases hm

/-- A limited method of a peer that is not logged in is denied. -/
theorem limitedMethod_denied {st : Server} {wp : WebsRec}
    (hcheck : st.g_webs_data.json_method_login_check ≠ 0)
    (hpw : st.g_webs_data.webs_uipwstate = .needed) (hlogin : ¬ LoggedIn st wp) :
    (limitedMethod st wp).ret ≠ 0 := by
  rw [ne_eq, limitedMethod_ret]
  intro h
  rcases (h hcheck).1 with h | h
  · exact hlogin h
  · rw [hpw] at h
    cases h

/-- A request to the JSON API is refused at once exactly if its path has a backslash. -/
theorem badRequest_webapi_iff {wp : WebsRec}
    (hpath : isWebapi (websCondenseMultipleChars 47 wp.path) = true) :
    badRequest (condenseRequest wp) = true ↔ 92 ∈ wp.path := by
  have hslash : (websCondenseMultipleChars 47 wp.path).head? = some 47 := by
    obtain ⟨t, ht⟩ := startsWith_eq_true.mp hpath
    have hh : (bytes "/jrd/webapi").head? = some 47 := by decide
    rw [← ht, List.head?_append, hh, Option.some_or]
  unfold badRequest condenseRequest
  dsimp only
  rw [hslash]
  simp [mem_condense]

/-- A body without a method passes the gate. -/
theorem securityJson_no_method {pl : Platform} {st : Server} {wp : WebsRec}
    (href : refererOk pl wp = true) (hnone : bodyMethod pl.lib wp.postData = none) :
    (securityJson pl st wp).ret = 0 := by
  unfold securityJson
  dsimp only
  rw [href, hnone]
  dsimp only
  split_ifs <;> first | rfl | contradiction

/-- And the form dispatcher does not know it. -/
theorem websFormHandler_no_method {lib : JsonLib} {wp : WebsRec} (hpath : isWebapi wp.path = true)
    (hnone : bodyMethod lib wp.postData = none) : websFormHandler lib wp = .passed := by
  unfold websFormHandler
  rw [if_pos hpath, hnone]

/-- A request to the JSON API with the given body. -/
def webapiPost (body : Bytes) : WebsRec where
  ipaddr := bytes "192.168.1.100"
  url := bytes "/jrd/webapi"
  path := bytes "/jrd/webapi"
  postData := body
  referer := some (bytes "http://192.168.1.1/index.html")

/-- The entries of both free lists. -/
def freeEntries : List Bytes := g_freeAccessDirs ++ g_freeAccessPages

/-- The file, relative to the web root, lies under a free directory or starts with a
free page. -/
def FreeFile (f : Bytes) : Prop :=
  (∃ d ∈ g_freeAccessDirs, d <+: f ++ [47]) ∨ (∃ p ∈ g_freeAccessPages, p <+: f)

/-- The segments of the path end under a free entry. -/
def EndsFree (path : Bytes) : Prop :=
  ∃ e ∈ freeEntries, EndsUnder true (entryPattern e) ((segments path).map toSeg)

theorem freeEntries_entry : ∀ e ∈ freeEntries, Entry e ∧ EntryText e := by decide

theorem freeUrl_eq_true (url : Bytes) : freeUrl url = true ↔ ∃ e ∈ freeEntries, e <+: url := by
  unfold freeUrl freeEntries
  simp only [Bool.or_eq_true, List.any_eq_true, startsWith_eq_true, List.mem_append]
  constructor
  · rintro (⟨e, he, h⟩ | ⟨e, he, h⟩)
    · exact ⟨e, Or.inl he, h⟩
    · exact ⟨e, Or.inr he, h⟩
  · rintro ⟨e, he | he, h⟩
    · exact Or.inl ⟨e, he, h⟩
    · exact Or.inr ⟨e, he, h⟩

/-- A string that does not end in a slash is a start of `f` if it is one of `f/`. -/
theorem prefix_of_prefix_slash {p f : Bytes} (hp : p.getLast? ≠ some 47) (h : p <+: f ++ [47]) :
    p <+: f := by
  rcases List.prefix_concat_iff.mp h with heq | hpre
  · rw [heq, List.getLast?_concat] at hp
    exact absurd rfl hp
  · exact hpre

theorem freeFile_iff (f : Bytes) : FreeFile f ↔ ∃ e ∈ freeEntries, e <+: f ++ [47] := by
  have hpages : ∀ p ∈ g_freeAccessPages, p.getLast? ≠ some 47 := by decide
  unfold FreeFile freeEntries
  simp only [List.mem_append]
  constructor
  · rintro (⟨d, hd, h⟩ | ⟨p, hp, h⟩)
    · exact ⟨d, Or.inl hd, h⟩
    · exact ⟨p, Or.inr hp, h.trans (List.prefix_append _ _)⟩
  · rintro ⟨e, he | he, h⟩
    · exact Or.inl ⟨e, he, h⟩
    · exact Or.inr ⟨e, he, prefix_of_prefix_slash (hpages e he) h⟩

/-- A validated file is free exactly when the segments of its path end under a free
entry. -/
theorem freeFile_validated {dir path : Bytes} {lpath : Lpath}
    (hval : websValidateUrl dir path = some lpath) : FreeFile lpath.file ↔ EndsFree path := by
  rw [freeFile_iff]
  unfold EndsFree
  constructor
  · rintro ⟨e, he, h⟩
    exact ⟨e, he, (validated_under_iff (freeEntries_entry e he).2 hval).mp h⟩
  · rintro ⟨e, he, h⟩
    exact ⟨e, he, (validated_under_iff (freeEntries_entry e he).2 hval).mpr h⟩

/-- The request `websUrlHandlerRequest` hands to its handlers for a URL. -/
def urlRequest (wp : WebsRec) (url : Bytes) : WebsRec := condenseRequest (websParseFirst wp url)

/-- The path of a request with a free URL begins with the same entry. -/
theorem free_path_entry {wp : WebsRec} {url : Bytes} (hok : badRequest (urlRequest wp url) = false)
    (hfree : freeUrl (urlRequest wp url).url = true) : ∃ e ∈ freeEntries, e <+: (urlRequest wp url).path := by
  obtain ⟨e, he, hpre⟩ := (freeUrl_eq_true _).mp hfree
  have hne : (websUrlParse url).path ≠ [] := by
    intro hnil
    have hpath : (urlRequest wp url).path = [] := by
      show websCondenseMultipleChars 47 (websUrlParse url).path = []
      rw [hnil]
      rfl
    unfold badRequest at hok
    rw [hpath] at hok
    revert hok
    decide
  exact ⟨e, he, entry_survives (freeEntries_entry e he).1 hpre hne⟩

/-- No entry goes together with `/goform` or `/cfgbak`. -/
theorem freeEntries_clash :
    ∀ e ∈ freeEntries, ∀ s ∈ [bytes "/goform", JRD_CFGBAK], ¬ e <+: s ∧ ¬ s <+: e := by
  decide

/-- A free URL leaves no room for a path that the gate treats specially. -/
theorem free_path_not_special {wp : WebsRec} {url : Bytes}
    (hok : badRequest (urlRequest wp url) = false) (hfree : freeUrl (urlRequest wp url).url = true) :
    startsWith (urlRequest wp url).path (bytes "/goform") = false ∧
      startsWith (urlRequest wp url).path (bytes "/cfgbak") = false := by
  obtain ⟨e, he, hpath⟩ := free_path_entry hok hfree
  -- Of two starts of one path, one is a start of the other; no entry is related to these.
  have hno : ∀ s ∈ [bytes "/goform", bytes "/cfgbak"],
      startsWith (urlRequest wp url).path s = false := by
    intro s hs
    rw [Bool.eq_false_iff]
    intro hstart
    obtain ⟨h1, h2⟩ := freeEntries_clash e he s hs
    rcases List.prefix_or_prefix_of_prefix hpath (startsWith_eq_true.mp hstart) with h | h
    · exact h1 h
    · exact h2 h
  exact ⟨hno _ (by simp), hno _ (by simp)⟩

/-- A free URL is resolved in the directory of the request, which is the web root. -/
theorem free_root {wp : WebsRec} {url dir : Bytes} {lpath : Lpath}
    (hok : badRequest (urlRequest wp url) = false) (hfree : freeUrl (urlRequest wp url).url = true)
    (hval : websValidateUrl dir (urlRequest wp url).path = some lpath) : lpath.root = dir := by
  obtain ⟨e, he, hpath⟩ := free_path_entry hok hfree
  have hlong : ∀ e ∈ freeEntries, 2 ≤ e.length := by decide
  exact validated_root (freeEntries_entry e he).1 (freeEntries_clash e he JRD_CFGBAK (by simp))
    (hlong e he) hpath hval

/-- **The page gate.** For a peer that is not logged in, a request outside the JSON
API passes exactly when its URL starts with a free entry. -/
theorem page_gate_iff {pl : Platform} {st : Server} {wp : WebsRec} {url : Bytes}
    (hok : badRequest (urlRequest wp url) = false)
    (hjson : isWebapi (urlRequest wp url).path = false)
    (hlogin : ¬ LoggedIn st (urlRequest wp url)) :
    (websSecurityHandler pl st (urlRequest wp url)).ret = 0 ↔
      freeUrl (urlRequest wp url).url = true := by
  rw [websSecurityHandler_page pl st hjson]
  by_cases hrefused : pageRefused pl (urlRequest wp url) = true
  · rw [if_pos hrefused]
    constructor
    · intro h
      exact absurd h one_ne_zero
    · intro hfree
      obtain ⟨h1, h2⟩ := free_path_not_special hok hfree
      unfold pageRefused at hrefused
      rw [h1, h2] at hrefused
      exact absurd hrefused (by simp)
  · rw [if_neg hrefused]
    -- The marked request is the same peer asking for the same page.
    have hlogin' : ¬ (EGOSM_isUserLogined st.g_sessionsTable
        (markDownload (urlRequest wp url))).2 = 1 := hlogin
    have hurl : (markDownload (urlRequest wp url)).url = (urlRequest wp url).url := rfl
    unfold securityPage
    dsimp only
    rw [hurl, if_neg hlogin']
    by_cases hfree : freeUrl (urlRequest wp url).url = true
    · rw [if_pos hfree]
      simp [hfree]
    · rw [if_neg hfree]
      simp [hfree]

/-- **The static-page gate.** Whatever URL a peer without a session sends: if it gets
past the gate, the file it resolves to is under the web root, and there on the free lists,
exactly when its path ends under a free entry. A URL the gate refuses is no concern. -/
theorem static_gate_iff (pl : Platform) (st : Server) (wp : WebsRec) (url dir : Bytes) (lpath : Lpath)
    (hok : badRequest (urlRequest wp url) = false)
    (hjson : isWebapi (urlRequest wp url).path = false)
    (hlogin : ¬ LoggedIn st (urlRequest wp url))
    (hval : websValidateUrl dir (urlRequest wp url).path = some lpath) :
    ((websSecurityHandler pl st (urlRequest wp url)).ret = 0 →
        lpath.root = dir ∧ FreeFile lpath.file) ↔
      (freeUrl (urlRequest wp url).url = true → EndsFree (urlRequest wp url).path) := by
  rw [page_gate_iff hok hjson hlogin, freeFile_validated hval]
  constructor
  · exact fun h hfree => (h hfree).2
  · exact fun h hfree => ⟨free_root hok hfree hval, h hfree⟩

/-- A browser that has not logged in. -/
def strangerPeer : WebsRec := { ipaddr := bytes "192.168.1.100" }

/-- A path that leaves a free directory for another one still ends under a free entry. -/
theorem static_gate_iff_reenters :
    ∃ lpath, websValidateUrl (bytes "/webs")
        (urlRequest strangerPeer (bytes "/images/../js/%6d.js")).path = some lpath ∧
      (websSecurityHandler (methodPlatform "") (checkServer 1 1)
        (urlRequest strangerPeer (bytes "/images/../js/%6d.js"))).ret = 0 ∧
      lpath.root = bytes "/webs" ∧ FreeFile lpath.file := by
  have hval : websValidateUrl (bytes "/webs")
      (urlRequest strangerPeer (bytes "/images/../js/%6d.js")).path
        = some ⟨bytes "/webs", bytes "/js/m.js"⟩ := by decide
  have hret : (websSecurityHandler (methodPlatform "") (checkServer 1 1)
      (urlRequest strangerPeer (bytes "/images/../js/%6d.js"))).ret = 0 := by decide
  refine ⟨_, hval, hret, (static_gate_iff (methodPlatform "") (checkServer 1 1) strangerPeer
    (bytes "/images/../js/%6d.js") (bytes "/webs") _ (by decide)
    (by decide) (by decide) hval).mpr (fun _ => ?_) hret⟩
  refine ⟨bytes "/js/", by decide, ?_⟩
  have hsegs : (segments (urlRequest strangerPeer (bytes "/images/../js/%6d.js")).path).map toSeg
      = [.down (bytes "images"), .up] ++ .down (bytes "js") :: [.down (bytes "m.js")] := by
    rfl
  have hpat : entryPattern (bytes "/js/") = [fun s => s = bytes "js"] := by
    rfl
  rw [hsegs, hpat]
  exact ⟨_, _, _, rfl, rfl, rfl, rfl⟩

/-- `/images/../admin.html` passes the gate and names a file outside the free lists. -/
theorem static_gate_escapes :
    ¬ ∀ (pl : Platform) (st : Server) (wp : WebsRec) (url dir : Bytes) (lpath : Lpath),
      badRequest (urlRequest wp url) = false → isWebapi (urlRequest wp url).path = false →
      ¬ LoggedIn st (urlRequest wp url) →
      websValidateUrl dir (urlRequest wp url).path = some lpath →
      (websSecurityHandler pl st (urlRequest wp url)).ret = 0 →
        lpath.root = dir ∧ FreeFile lpath.file := by
  intro hall
  have h := hall (methodPlatform "") (checkServer 1 1) strangerPeer
    (bytes "/images/../admin.html") (bytes "/webs") ⟨bytes "/webs", bytes "/admin.html"⟩
    (by decide) (by decide) (by decide) (by decide) (by decide)
  have hfile := h.2
  rw [freeFile_iff] at hfile
  revert hfile
  decide

end TestCore.Webs
