/-
The referer test of `websSecurityHandler`, against what it is for: a `/jrd/webapi`,
`/goform` or `/cfgbak` request is to come from a page of the server itself, so its
Referer is to be `http://`, the address or the name of the server, and `/`.

The test skips as many characters as `http://` has and compares from there. It does
not look at what it skips, and it does not ask whether there is that much to skip. A
Referer of fewer than seven characters is compared behind its own terminator; one
whose first seven characters are of another scheme passes if the host is right.
Those are the only two ways to miss: `RefererExact` holds of every other Referer.
-/
import TestCore.Webs.Security

set_option autoImplicit false

namespace TestCore.Webs

open TestCore.Lib

/-! ## What the test is for -/

/-- The paths whose requests have their Referer looked at. -/
def RefererChecked (path : Bytes) : Prop :=
  isWebapi path = true ∨ startsWith path (bytes "/goform") = true ∨
    startsWith path (bytes "/cfgbak") = true

/-- After the first seven characters comes the address or the name of the server, and
then `/`. -/
def NamesServer (pl : Platform) (r : Bytes) : Prop :=
  pl.websIpaddr ++ [47] <+: r.drop (bytes "http://").length ∨
    pl.websHost ++ [47] <+: r.drop (bytes "http://").length

/-- The Referer is that of a page of the server. -/
def OwnPage (pl : Platform) (r : Bytes) : Prop :=
  bytes "http://" ++ pl.websIpaddr ++ [47] <+: r ∨ bytes "http://" ++ pl.websHost ++ [47] <+: r

/-- The test lets through the pages of the server and nothing else, and reads nothing
behind the terminator of the Referer `r`. -/
structure RefererExact (pl : Platform) (st : Server) (wp : WebsRec) (r : Bytes) : Prop where
  passes : (websSecurityHandler pl st wp).rsp ≠ some (.err WEBS_REFERER_ERROR) ↔ OwnPage pl r
  inside : ∀ i ∈ (refererTest (memFrom r pl.behindReferer) pl.websIpaddr pl.websHost).2, i ≤ r.length

/-! ## The handler answers with the result of the test -/

theorem tokenError_ne : some (SecurityRsp.err WEBS_TOKEN_ERROR) ≠ some (.err WEBS_REFERER_ERROR) := by
  decide

theorem limitedMethod_rsp (st : Server) (wp : WebsRec) :
    (limitedMethod st wp).rsp ≠ some (.err WEBS_REFERER_ERROR) := by
  have hlogin : some (SecurityRsp.err WEBS_NEED_LOGIN) ≠ some (.err WEBS_REFERER_ERROR) := by decide
  unfold limitedMethod
  dsimp only
  split_ifs
  · exact tokenError_ne
  · exact nofun
  · exact hlogin
  · exact nofun

theorem securityJson_rsp (pl : Platform) (st : Server) (wp : WebsRec) :
    (securityJson pl st wp).rsp = some (.err WEBS_REFERER_ERROR) ↔ refererOk pl wp = false := by
  unfold securityJson
  dsimp only
  by_cases href : refererOk pl wp = false
  · rw [if_pos href]
    exact ⟨fun _ => href, fun _ => rfl⟩
  · rw [if_neg href]
    refine ⟨fun h => absurd h ?_, fun h => absurd h href⟩
    -- Behind the test every answer is about something else, whatever the body is.
    rcases bodyMethod pl.lib wp.postData with _ | method
    · dsimp only
      split_ifs
      · exact not_false
      · exact not_false
    · dsimp only
      split_ifs
      · exact not_false
      · exact not_false
      · exact tokenError_ne
      · exact not_false
      · exact limitedMethod_rsp st wp

theorem securityPage_rsp (st : Server) (wp : WebsRec) :
    (securityPage st wp).rsp ≠ some (.err WEBS_REFERER_ERROR) := by
  unfold securityPage
  dsimp only
  split_ifs
  all_goals simp

/-- A request to a checked path is refused for its Referer exactly when the test
fails. -/
theorem referer_refused_iff (pl : Platform) (st : Server) {wp : WebsRec}
    (hpath : RefererChecked wp.path) :
    (websSecurityHandler pl st wp).rsp = some (.err WEBS_REFERER_ERROR) ↔
      refererOk pl wp = false := by
  by_cases hweb : isWebapi wp.path = true
  · rw [websSecurityHandler_webapi pl st hweb, securityJson_rsp]
    exact Iff.rfl
  · have hpage : (startsWith wp.path (bytes "/goform") || startsWith wp.path (bytes "/cfgbak")) = true := by
      rw [Bool.or_eq_true]
      exact hpath.resolve_left hweb
    rw [websSecurityHandler_page pl st (by simpa using hweb)]
    have hrefused : pageRefused pl wp = true ↔ refererOk pl wp = false := by
      unfold pageRefused
      rw [hpage, Bool.true_and, Bool.not_eq_true']
    rw [← hrefused]
    by_cases h : pageRefused pl wp = true
    · rw [if_pos h]
      exact ⟨fun _ => h, fun _ => rfl⟩
    · rw [if_neg h]
      exact ⟨fun hrsp => absurd hrsp (securityPage_rsp st _), fun h' => absurd h' h⟩

/-! ## One comparison, and both -/

section Compare

variable {r host websIpaddr websHost : Bytes}

/-- With seven characters to skip, one comparison asks for the host and a `/` behind
them and stays inside the Referer. -/
theorem refererNames_memFrom (hhost : NulFree host) (hr : (bytes "http://").length ≤ r.length)
    (behind : ℕ → UInt8) :
    ((refererNames (memFrom r behind) host).1 = true ↔
        host ++ [47] <+: r.drop (bytes "http://").length) ∧
      ∀ i ∈ (refererNames (memFrom r behind) host).2, i ≤ r.length := by
  obtain ⟨hcmp, hreads⟩ := strncmpAt_memFrom hhost hr behind
  unfold refererNames
  dsimp only
  by_cases hmatch : (strncmpAt (memFrom r behind) (bytes "http://").length host).1 = true
  · rw [if_pos hmatch]
    obtain ⟨hlen, hafter⟩ := memFrom_after_match hr (hcmp.mp hmatch) behind (by decide : (47 : UInt8) ≠ 0)
    refine ⟨beq_iff_eq.trans hafter, ?_⟩
    intro i hi
    rcases List.mem_append.mp hi with hi | hi
    · exact hreads i hi
    · rw [List.mem_singleton.mp hi]
      exact hlen
  · rw [if_neg hmatch]
    refine ⟨⟨fun h => absurd h hmatch, fun h => ?_⟩, hreads⟩
    exact absurd (hcmp.mpr ((List.prefix_append host [47]).trans h)) hmatch

/-- The first character compared is the one behind the skipped seven. -/
theorem skip_mem_refererNames (p : ℕ → UInt8) (hhost : host ≠ []) :
    (bytes "http://").length ∈ (refererNames p host).2 := by
  have hoff := off_mem_strncmpAt p (bytes "http://").length hhost
  unfold refererNames
  dsimp only
  split_ifs
  · exact List.mem_append_left _ hoff
  · exact hoff

theorem refererTest_memFrom (hip : NulFree websIpaddr) (hhost : NulFree websHost)
    (hr : (bytes "http://").length ≤ r.length) (behind : ℕ → UInt8) :
    ((refererTest (memFrom r behind) websIpaddr websHost).1 = true ↔
        websIpaddr ++ [47] <+: r.drop (bytes "http://").length ∨
          websHost ++ [47] <+: r.drop (bytes "http://").length) ∧
      ∀ i ∈ (refererTest (memFrom r behind) websIpaddr websHost).2, i ≤ r.length := by
  obtain ⟨hip, hipReads⟩ := refererNames_memFrom hip hr behind
  obtain ⟨hhost, hhostReads⟩ := refererNames_memFrom hhost hr behind
  unfold refererTest
  dsimp only
  by_cases h : (refererNames (memFrom r behind) websIpaddr).1 = true
  · rw [if_pos h]
    exact ⟨⟨fun _ => Or.inl (hip.mp h), fun _ => h⟩, hipReads⟩
  · rw [if_neg h, hhost]
    refine ⟨⟨Or.inr, fun hor => hor.resolve_left (fun hpre => h (hip.mpr hpre))⟩, ?_⟩
    intro i hi
    rcases List.mem_append.mp hi with hi | hi
    · exact hipReads i hi
    · exact hhostReads i hi

/-- Whatever the outcome, the test has read the character behind the first seven. -/
theorem skip_mem_refererTest (p : ℕ → UInt8) (hip : websIpaddr ≠ []) :
    (bytes "http://").length ∈ (refererTest p websIpaddr websHost).2 := by
  have hskip := skip_mem_refererNames p hip
  unfold refererTest
  dsimp only
  split_ifs
  · exact hskip
  · exact List.mem_append_left _ hskip

end Compare

/-! ## When the test is exact -/

/-- A string starts with `pre ++ rest` when it starts with `pre` and goes on with
`rest`. -/
theorem append_prefix_iff {pre rest r : Bytes} :
    pre ++ rest <+: r ↔ pre <+: r ∧ rest <+: r.drop pre.length := by
  constructor
  · rintro ⟨u, rfl⟩
    rw [List.append_assoc, List.drop_left]
    exact ⟨List.prefix_append _ _, List.prefix_append _ _⟩
  · rintro ⟨⟨v, rfl⟩, h⟩
    rw [List.drop_left] at h
    exact (List.prefix_append_right_inj pre).mpr h

/-- A page of the server is named by a Referer with the right scheme. -/
theorem ownPage_iff (pl : Platform) (r : Bytes) :
    OwnPage pl r ↔ bytes "http://" <+: r ∧ NamesServer pl r := by
  unfold OwnPage NamesServer
  rw [List.append_assoc, List.append_assoc, and_or_left, ← append_prefix_iff, ← append_prefix_iff]

/-- **The Referer gate.** On a checked path the test is exact for a Referer that has
the seven characters it skips, if those are `http://` whenever the server is named
behind them; and for no other. -/
theorem referer_exact_iff (pl : Platform) (st : Server) (wp : WebsRec) (r : Bytes)
    (hpath : RefererChecked wp.path) (href : wp.referer = some r)
    (hip : NulFree pl.websIpaddr) (hipne : pl.websIpaddr ≠ []) (hhost : NulFree pl.websHost) :
    RefererExact pl st wp r ↔
      (bytes "http://").length ≤ r.length ∧ (NamesServer pl r → bytes "http://" <+: r) := by
  have hok : refererOk pl wp =
      (refererTest (memFrom r pl.behindReferer) pl.websIpaddr pl.websHost).1 := by
    unfold refererOk
    rw [href]
  have hpass : (websSecurityHandler pl st wp).rsp ≠ some (.err WEBS_REFERER_ERROR) ↔
      (refererTest (memFrom r pl.behindReferer) pl.websIpaddr pl.websHost).1 = true := by
    rw [ne_eq, referer_refused_iff pl st hpath, hok, Bool.not_eq_false]
  constructor
  · rintro ⟨hpasses, hinside⟩
    -- The character behind the skipped ones is read in any case; it has to be there.
    have hlen : (bytes "http://").length ≤ r.length :=
      hinside _ (skip_mem_refererTest _ hipne)
    refine ⟨hlen, fun hnames => ?_⟩
    have htest := (refererTest_memFrom hip hhost hlen pl.behindReferer).1.mpr hnames
    exact ((ownPage_iff pl r).mp (hpasses.mp (hpass.mpr htest))).1
  · rintro ⟨hlen, hscheme⟩
    obtain ⟨htest, hinside⟩ := refererTest_memFrom hip hhost hlen pl.behindReferer
    refine ⟨?_, hinside⟩
    rw [hpass, htest, ownPage_iff]
    exact ⟨fun hnames => ⟨hscheme hnames, hnames⟩, fun h => h.2⟩

/-- A Referer with the scheme and the address of the server. -/
theorem referer_exact_own_index :
    RefererExact (methodPlatform "GetWlanSettings") (checkServer 1 1) (wlanRequest (bytes "0"))
      (bytes "http://192.168.1.1/index.html") := by
  refine (referer_exact_iff (methodPlatform "GetWlanSettings") (checkServer 1 1)
    (wlanRequest (bytes "0")) (bytes "http://192.168.1.1/index.html") (Or.inl ?_) rfl
    ?_ ?_ ?_).mpr ⟨?_, fun _ => ?_⟩
  all_goals decide

/-- The page of another scheme, with the address where the test expects it. -/
def foreignRequest : WebsRec :=
  { wlanRequest (bytes "0") with referer := some (bytes "file://192.168.1.1/x.html") }

/-- A Referer of another origin is not refused. -/
theorem referer_foreign_scheme_passes :
    ¬ ∀ (pl : Platform) (st : Server) (wp : WebsRec) (r : Bytes),
      RefererChecked wp.path → wp.referer = some r → NulFree pl.websIpaddr → pl.websIpaddr ≠ [] →
      NulFree pl.websHost → pl.websHost ≠ [] → RefererExact pl st wp r := by
  intro hall
  have h := hall (methodPlatform "GetWlanSettings") (checkServer 1 1) foreignRequest
    (bytes "file://192.168.1.1/x.html") (Or.inl (by decide)) rfl (by decide)
    (by decide) (by decide) (by decide)
  -- The answer is about the login: the Referer was good enough.
  have hpass : (websSecurityHandler (methodPlatform "GetWlanSettings") (checkServer 1 1)
      foreignRequest).rsp ≠ some (.err WEBS_REFERER_ERROR) := by decide
  have hown := h.passes.mp hpass
  revert hown
  unfold OwnPage
  decide

end TestCore.Webs
