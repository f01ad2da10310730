/-
From a request URL to a file: `websDecodeUrl`, `websUrlParse`,
`websCondenseMultipleChars` and `websValidateUrl`.

The URL is kept twice. `wp->url` is the text of the request line, condensed;
`wp->path` is cut out of the decoded text, condensed. The access decision reads the
first and the file is found from the second, which is decoded once more on the way.
`plain_survives` says how far the two agree: a start of the condensed URL that
contains no character any of the steps treats specially is also the start of the
condensed path.

What follows that start is another matter. `websValidateUrl` walks the segments of
the path and lets `..` undo the segments before it, including the ones the access
decision was taken on.
-/
import TestCore.Lib.CString
import TestCore.Lib.Path

set_option autoImplicit false

namespace TestCore.Webs

open TestCore.Lib

/-! ## Decoding -/

/-- `gisxdigit`. -/
def isxdigit (c : UInt8) : Bool :=
  (48 ≤ c && c ≤ 57) || (65 ≤ c && c ≤ 70) || (97 ≤ c && c ≤ 102)

/-- The value of a hexadecimal digit, after `tolower`. -/
def hexDigit (c : UInt8) : UInt8 :=
  let c := if 65 ≤ c && c ≤ 90 then c + 32 else c
  if 97 ≤ c && c ≤ 102 then 10 + c - 97 else c - 48

/-- The loop of `websDecodeUrl`. Its `len` is always the length of the string, so it
never ends the loop. -/
def decodeChars : Bytes → Bytes
  | [] => []
  | c :: a :: b :: s =>
      if c = 43 then 32 :: decodeChars (a :: b :: s)
      else if c = 37 && isxdigit a && isxdigit b then
        (hexDigit a * 16 + hexDigit b) :: decodeChars s
      else c :: decodeChars (a :: b :: s)
  | c :: s => (if c = 43 then 32 else c) :: decodeChars s

/-- `websDecodeUrl`: a decoded `%00` ends the string. -/
def websDecodeUrl (token : Bytes) : Bytes := cstr (decodeChars token)

/-! ## Parsing -/

/-- The part of `websUrlParse`'s results that a request keeps its path and query
from. -/
structure UrlParts where
  path : Bytes
  query : Bytes
  deriving DecidableEq, Repr

/-- `tok` after the loop over the host of a full URL: what follows the last `:` the
loop meets. The character right behind a `:` is stepped over unseen. -/
def hostScan (tok : Bytes) : Bytes → Bytes
  | [] => tok
  | c :: cp =>
      if c = 47 then tok
      else if c = 58 then
        match cp with
        | [] => []
        | d :: cp' => hostScan (d :: cp') cp'
      else hostScan tok cp

/-- The path and `tok` of a decoded URL, before query and fragment are cut off. -/
def splitHost (url : Bytes) : Bytes × Bytes :=
  if startsWith url (bytes "http://") then
    let tok := hostScan (url.drop 7) (url.drop 7)
    if 47 ∈ tok then
      let path := tok.dropWhile (· ≠ 47)
      (path, path)
    else (bytes "/", tok)
  else (url, url)

/-- Query and fragment. After a `?` the fragment is looked for in the query, and a
query that turns out empty then makes the (empty) query the path as well. -/
def splitQuery (path tok : Bytes) : UrlParts :=
  if 63 ∈ tok then
    let query := (tok.dropWhile (· ≠ 63)).tail
    if 35 ∈ query then
      let query' := query.takeWhile (· ≠ 35)
      if query' = [] then ⟨[], []⟩ else ⟨tok.takeWhile (· ≠ 63), query'⟩
    else ⟨tok.takeWhile (· ≠ 63), query⟩
  else if 35 ∈ tok then ⟨tok.takeWhile (· ≠ 35), []⟩
  else ⟨path, []⟩

/-- One of the characters of `garbage`. -/
def isGarbage (c : UInt8) : Bool := c == 47 || c == 92

/-- What follows the extension: the part behind the last dot, from its first slash
or backslash on. -/
def afterExt (path : Bytes) : Bytes :=
  (path.reverse.takeWhile (· ≠ 46)).reverse.dropWhile fun c => !isGarbage c

/-- The slashes and backslashes behind an extension are cut off the path. -/
def trimExt (path : Bytes) : Bytes :=
  if 46 ∈ path ∧ (afterExt path).all isGarbage then path.take (path.length - (afterExt path).length)
  else path

/-- `websUrlParse`. -/
def websUrlParse (url : Bytes) : UrlParts :=
  let h := splitHost (websDecodeUrl url)
  let q := splitQuery h.1 h.2
  { q with path := trimExt q.path }

/-- `websCondenseMultipleChars`. -/
def websCondenseMultipleChars (cCondense : UInt8) : Bytes → Bytes
  | [] => []
  | [a] => [a]
  | a :: b :: s =>
      if a = cCondense ∧ b = cCondense then websCondenseMultipleChars cCondense (b :: s)
      else a :: websCondenseMultipleChars cCondense (b :: s)

/-! ## Finding the file -/

def MAX_URL_DEPTH : ℕ := 8

def isSlash (c : UInt8) : Bool := c == 47

/-- The path `websValidateUrl` works on: decoded, with backslashes turned round. -/
def validatePath (path : Bytes) : Bytes :=
  (websDecodeUrl path).map fun c => if c = 92 then 47 else c

/-- The tokens of the path. -/
def segments (path : Bytes) : List Bytes := strtok isSlash (validatePath path)

/-- One round of the loop over the tokens; `none` once there are too many parts. -/
def validateStep (parts : Option (List Bytes)) (token : Bytes) : Option (List Bytes) :=
  parts.bind fun parts =>
    if MAX_URL_DEPTH ≤ parts.length then none
    else if token = bytes ".." then some parts.dropLast
    else if token = bytes "." then some parts
    else some (parts ++ [token])

/-- The parts, each behind a `/`. -/
def render (parts : List Bytes) : Bytes := parts.flatMap fun p => 47 :: p

/-- What is left of the path as a string once `strtok` has put a terminator behind
the first token. -/
def firstToken (path : Bytes) : Bytes :=
  path.takeWhile isSlash ++ (path.dropWhile isSlash).takeWhile fun c => !isSlash c

/-- `JRD_WEBRC_CFGBAK`: where backups of the configuration are kept. -/
def JRD_WEBRC_CFGBAK : Bytes := bytes "/jrd-resource/resource/webs-cfg"

def JRD_CFGBAK : Bytes := bytes "/cfgbak"

/-- `lpath`, in its two parts: the directory it is put together from, and the file. -/
structure Lpath where
  root : Bytes
  file : Bytes
  deriving DecidableEq, Repr

/-- `websValidateUrl`, with the directory of the request; `none` for the return value -1.
`path` has lost everything behind its first token when it is searched for `JRD_CFGBAK`. -/
def websValidateUrl (dir path : Bytes) : Option Lpath := do
  if dir = [] then none
  let parts ← (segments path).foldl validateStep (some [])
  let rest := firstToken (validatePath path)
  if parts ≠ [] ∨ rest = bytes "/" ∨ rest = [] then
    some ⟨if strstr rest JRD_CFGBAK then JRD_WEBRC_CFGBAK else dir, render parts⟩
  else none

/-- How a token moves the walk. -/
def toSeg (token : Bytes) : Seg Bytes :=
  if token = bytes ".." then .up else if token = bytes "." then .here else .down token

/-! ## Condensing -/

section Condense

/-- A slash in front of a slash is dropped. -/
theorem condense_double (s : Bytes) :
    websCondenseMultipleChars 47 (47 :: 47 :: s) = websCondenseMultipleChars 47 (47 :: s) := by
  rw [websCondenseMultipleChars, if_pos ⟨rfl, rfl⟩]

theorem condense_cons {c : UInt8} {s : Bytes} (h : ¬ (c = 47 ∧ s.head? = some 47)) :
    websCondenseMultipleChars 47 (c :: s) = c :: websCondenseMultipleChars 47 s := by
  cases s with
  | nil => rfl
  | cons d s =>
      have hne : ¬ (c = 47 ∧ d = 47) := by simpa using h
      rw [websCondenseMultipleChars, if_neg hne]

/-- The two cases of condensing a non-empty string, as a case distinction. -/
theorem condense_cases (c : UInt8) (s : Bytes) :
    (∃ s', c = 47 ∧ s = 47 :: s' ∧
      websCondenseMultipleChars 47 (c :: s) = websCondenseMultipleChars 47 s) ∨
    (¬ (c = 47 ∧ s.head? = some 47) ∧
      websCondenseMultipleChars 47 (c :: s) = c :: websCondenseMultipleChars 47 s) := by
  by_cases h : c = 47 ∧ s.head? = some 47
  · obtain ⟨s', hs'⟩ := List.head?_eq_some_iff.mp h.2
    left
    refine ⟨s', h.1, hs', ?_⟩
    rw [hs', h.1]
    exact condense_double s'
  · exact Or.inr ⟨h, condense_cons h⟩

theorem condense_head (s : Bytes) : (websCondenseMultipleChars 47 s).head? = s.head? := by
  induction s with
  | nil => rfl
  | cons c s ih =>
      rcases condense_cases c s with ⟨s', hc, hs, h⟩ | ⟨-, h⟩
      · rw [h, ih, hs, hc]
        rfl
      · rw [h]
        rfl

theorem mem_condense {c : UInt8} (hc : c ≠ 47) (s : Bytes) :
    c ∈ websCondenseMultipleChars 47 s ↔ c ∈ s := by
  induction s with
  | nil => rfl
  | cons d s ih =>
      rcases condense_cases d s with ⟨s', hd, -, h⟩ | ⟨-, h⟩
      · rw [h, ih, List.mem_cons, hd]
        simp [hc]
      · rw [h, List.mem_cons, ih, List.mem_cons]

theorem condense_append {a : Bytes} (ha : a.getLast? ≠ some 47) (g : Bytes) :
    websCondenseMultipleChars 47 (a ++ g)
      = websCondenseMultipleChars 47 a ++ websCondenseMultipleChars 47 g := by
  induction a with
  | nil => rfl
  | cons c a ih =>
      rcases a with _ | ⟨d, a⟩
      · have hc : c ≠ 47 := by simpa using ha
        exact condense_cons (fun h => hc h.1)
      · have hlast : (d :: a).getLast? ≠ some 47 := by
          rwa [List.getLast?_cons_cons] at ha
        rcases condense_cases c (d :: a) with ⟨s', hc, hs, h⟩ | ⟨hne, h⟩
        · -- A double slash inside the first part is condensed on both sides.
          rw [h, ← ih hlast, List.cons_append]
          rw [List.cons.injEq] at hs
          rw [hc, hs.1]
          exact condense_double _
        · have hstep := condense_cons (c := c) (s := d :: a ++ g) hne
          rw [h, List.cons_append, hstep, ih hlast, List.cons_append]

end Condense

/-! ## A plain start survives

`e` is compared with the condensed URL. The steps from the URL to the condensed path
are decoding, cutting at a `?` or `#`, and trimming; each keeps a start of plain
characters, up to how many slashes stand where one slash is meant. -/

/-- No character of the string is special to any of the steps. -/
def Plain (e : Bytes) : Prop :=
  ∀ c ∈ e, c ≠ 0 ∧ c ≠ 35 ∧ c ≠ 37 ∧ c ≠ 43 ∧ c ≠ 63 ∧ c ≠ 92

/-- What every entry of the free lists looks like: plain, absolute, without a double
slash, and without a slash behind an extension. -/
structure Entry (e : Bytes) : Prop where
  plain : Plain e
  absolute : e.head? = some 47
  single : ¬ [47, 47] <:+: e
  ext : 46 ∈ e → e.getLast? ≠ some 47

-- Decided by one pass over the string; the bounded quantifier would be evaluated
-- anew for every character.
instance (e : Bytes) : Decidable (Plain e) :=
  decidable_of_iff
    (e.all fun c => c != 0 && c != 35 && c != 37 && c != 43 && c != 63 && c != 92)
    (by simp [Plain, and_assoc])

instance (e : Bytes) : Decidable (Entry e) :=
  decidable_of_iff (Plain e ∧ e.head? = some 47 ∧ ¬ [47, 47] <:+: e ∧
      (46 ∈ e → e.getLast? ≠ some 47))
    ⟨fun h => ⟨h.1, h.2.1, h.2.2.1, h.2.2.2⟩, fun h => ⟨h.plain, h.absolute, h.single, h.ext⟩⟩

/-- Cutting the string where a character fails `p` keeps a start that passes it. -/
theorem plain_takeWhile {p : UInt8 → Bool} (hslash : p 47 = true) {e s : Bytes}
    (he : ∀ c ∈ e, p c = true) (h : e <+: websCondenseMultipleChars 47 s) :
    e <+: websCondenseMultipleChars 47 (s.takeWhile p) := by
  induction s generalizing e with
  | nil => exact h
  | cons c s ih =>
      rcases condense_cases c s with ⟨s', hc, hs, hcond⟩ | ⟨hne, hcond⟩
      · rw [hcond] at h
        -- Two slashes: the first one is dropped before and after the cut.
        have hrec := ih he h
        have hhead : s.takeWhile p = 47 :: s'.takeWhile p := by
          rw [hs, List.takeWhile_cons_of_pos hslash]
        rw [hc, List.takeWhile_cons_of_pos hslash, hhead, condense_double, ← hhead]
        exact hrec
      · rw [hcond] at h
        rcases e with _ | ⟨d, e⟩
        · exact List.nil_prefix
        · obtain ⟨rfl, htail⟩ := List.cons_prefix_cons.mp h
          -- The next character is one of the entry, so the cut comes later.
          have hd : p d = true := he d List.mem_cons_self
          have hne' : ¬ (d = 47 ∧ (s.takeWhile p).head? = some 47) := by
            rintro ⟨h47, hhead⟩
            apply hne
            refine ⟨h47, ?_⟩
            rcases s with _ | ⟨x, s⟩
            · exact hhead
            · by_cases hx : p x = true
              · rwa [List.takeWhile_cons_of_pos hx] at hhead
              · rw [List.takeWhile_cons_of_neg hx] at hhead
                cases hhead
          rw [List.takeWhile_cons_of_pos hd, condense_cons hne']
          exact List.cons_prefix_cons.mpr
            ⟨rfl, ih (fun c hc => he c (List.mem_cons_of_mem _ hc)) htail⟩

/-- A character that is neither `%` nor `+` is decoded to itself. -/
theorem decodeChars_cons {c : UInt8} (h37 : c ≠ 37) (h43 : c ≠ 43) (s : Bytes) :
    decodeChars (c :: s) = c :: decodeChars s := by
  rcases s with _ | ⟨a, _ | ⟨b, s⟩⟩
  · simp [decodeChars, h43]
  · simp [decodeChars, h43]
  · simp [decodeChars, h43, h37]

theorem plain_decodeChars {e s : Bytes} (he : Plain e)
    (h : e <+: websCondenseMultipleChars 47 s) :
    e <+: websCondenseMultipleChars 47 (decodeChars s) := by
  induction s generalizing e with
  | nil => exact h
  | cons c s ih =>
      rcases condense_cases c s with ⟨s', hc, hs, hcond⟩ | ⟨hne, hcond⟩
      · rw [hcond] at h
        have hrec := ih he h
        have hhead : decodeChars s = 47 :: decodeChars s' := by
          rw [hs, decodeChars_cons (by decide) (by decide)]
        rw [hc, decodeChars_cons (by decide) (by decide), hhead, condense_double, ← hhead]
        exact hrec
      · rw [hcond] at h
        rcases e with _ | ⟨d, e⟩
        · exact List.nil_prefix
        · obtain ⟨rfl, htail⟩ := List.cons_prefix_cons.mp h
          obtain ⟨-, -, h37, h43, -, -⟩ := he d List.mem_cons_self
          have hplain : Plain e := fun c hc => he c (List.mem_cons_of_mem _ hc)
          -- A character of the entry is decoded to itself; only what follows may change.
          rw [decodeChars_cons h37 h43]
          rcases condense_cases d (decodeChars s) with ⟨s', hd, hs', hcond'⟩ | ⟨-, hcond'⟩
          · -- A slash, and behind it an encoded one: the entry must end here, because
            -- its next character would have to be the `%` of the encoding.
            rcases e with _ | ⟨x, e⟩
            · rw [hcond', hd, List.singleton_prefix_iff_head?_eq_some, condense_head, hs']
              rfl
            · exfalso
              have hx : s.head? = some x := by
                obtain ⟨t, ht⟩ := htail
                rw [← condense_head, ← ht]
                rfl
              obtain ⟨s0, hs0⟩ := List.head?_eq_some_iff.mp hx
              obtain ⟨-, -, hx37, hx43, -, -⟩ := hplain x List.mem_cons_self
              rw [hs0, decodeChars_cons hx37 hx43, List.cons.injEq] at hs'
              exact hne ⟨hd, by rw [hx, hs'.1]⟩
          · rw [hcond']
            exact List.cons_prefix_cons.mpr ⟨rfl, ih hplain htail⟩

/-- A path with a dot is a part that contains the dot and does not end in a slash,
and what follows the extension. -/
theorem afterExt_split {path : Bytes} (hdot : 46 ∈ path) :
    ∃ ini, path = ini ++ afterExt path ∧ 46 ∈ ini ∧ ini.getLast? ≠ some 47 := by
  obtain ⟨as, bs, hrev, has⟩ := List.eq_append_cons_of_mem (List.mem_reverse.mpr hdot)
  have hafter : (path.reverse.takeWhile (· ≠ 46)).reverse = as.reverse := by
    rw [hrev, List.takeWhile_append_of_pos, List.takeWhile_cons_of_neg (by simp),
      List.append_nil]
    intro c hc
    have hne : c ≠ 46 := fun h => has (h ▸ hc)
    simpa using hne
  have hpath : path = bs.reverse ++ 46 :: as.reverse := by
    have h := congrArg List.reverse hrev
    simpa using h
  refine ⟨bs.reverse ++ 46 :: as.reverse.takeWhile fun c => !isGarbage c, ?_, by simp, ?_⟩
  · unfold afterExt
    rw [hafter, List.append_assoc, List.cons_append, List.takeWhile_append_dropWhile]
    exact hpath
  · -- The last character is the dot itself or one of the extension.
    intro hlast
    rw [List.getLast?_append_of_ne_nil _ (List.cons_ne_nil _ _), List.getLast?_cons] at hlast
    rcases hext : (as.reverse.takeWhile fun c => !isGarbage c).getLast? with _ | c
    · rw [hext] at hlast
      revert hlast
      decide
    · rw [hext, Option.getD_some, Option.some.injEq] at hlast
      have hmem := List.mem_of_getLast? hext
      have hc := List.mem_takeWhile_imp (p := fun c => !isGarbage c) hmem
      rw [hlast] at hc
      revert hc
      decide

/-- Trimming keeps an entry: only an entry with an extension and a slash behind it
could lose its end. -/
theorem plain_trimExt {e path : Bytes} (he : Entry e)
    (h : e <+: websCondenseMultipleChars 47 path) :
    e <+: websCondenseMultipleChars 47 (trimExt path) := by
  unfold trimExt
  by_cases hok : 46 ∈ path ∧ (afterExt path).all isGarbage
  · rw [if_pos hok]
    obtain ⟨ini, hpath, h46, hlast⟩ := afterExt_split hok.1
    have htake : path.take (path.length - (afterExt path).length) = ini := by
      have hlen : path.length - (afterExt path).length = ini.length := by
        have hl := congrArg List.length hpath
        rw [List.length_append] at hl
        omega
      rw [hlen]
      nth_rewrite 1 [hpath]
      exact List.take_left
    rw [htake]
    rw [hpath, condense_append hlast] at h
    -- Either the entry ends before the garbage, or it reaches into it.
    rcases List.prefix_or_prefix_of_prefix h (List.prefix_append _ _) with hpre | ⟨e2, rfl⟩
    · exact hpre
    · rw [List.prefix_append_right_inj] at h
      rcases e2 with _ | ⟨c, e2⟩
      · rw [List.append_nil]
      · exfalso
        -- The entry reaches into the garbage: its next character is a slash, and so
        -- is its last one.
        have hgarbage : ∀ x ∈ c :: e2, x = 47 := by
          intro x hx
          by_contra hne
          have hmem : x ∈ afterExt path := (mem_condense hne _).mp (h.subset hx)
          have hg := List.all_eq_true.mp hok.2 x hmem
          have h92 : x ≠ 92 := (he.plain x (List.mem_append_right _ hx)).2.2.2.2.2
          simp [isGarbage, hne, h92] at hg
        have hend : (websCondenseMultipleChars 47 ini ++ c :: e2).getLast? = some 47 := by
          have hne : c :: e2 ≠ [] := List.cons_ne_nil c e2
          rw [List.getLast?_append_of_ne_nil _ hne, List.getLast?_eq_some_getLast hne]
          exact congrArg some (hgarbage _ (List.getLast_mem hne))
        exact he.ext (List.mem_append_left _ ((mem_condense (by decide) ini).mpr h46)) hend
  · rwa [if_neg hok]

/-- The path of a URL that starts with a slash, before trimming: the decoded URL, or
what stands before its query or fragment, or nothing. -/
theorem splitQuery_path (url : Bytes) :
    (splitQuery url url).path = url ∨ (splitQuery url url).path = url.takeWhile (· ≠ 63) ∨
      (splitQuery url url).path = url.takeWhile (· ≠ 35) ∨ (splitQuery url url).path = [] := by
  unfold splitQuery
  dsimp only
  split_ifs
  · exact Or.inr (Or.inr (Or.inr rfl))
  · exact Or.inr (Or.inl rfl)
  · exact Or.inr (Or.inl rfl)
  · exact Or.inr (Or.inr (Or.inl rfl))
  · exact Or.inl rfl

/-- **The two views agree on a plain start.** An entry the condensed URL starts with
is what the condensed path starts with, if there is a path at all. -/
theorem entry_survives {e url : Bytes} (he : Entry e) (h : e <+: websCondenseMultipleChars 47 url)
    (hne : (websUrlParse url).path ≠ []) :
    e <+: websCondenseMultipleChars 47 (websUrlParse url).path := by
  have hdec : e <+: websCondenseMultipleChars 47 (websDecodeUrl url) := by
    unfold websDecodeUrl
    have hchars := plain_decodeChars he.plain h
    refine plain_takeWhile (by decide) (fun c hc => ?_) hchars
    simpa using (he.plain c hc).1
  have hhead : (websDecodeUrl url).head? = some 47 := by
    obtain ⟨t, ht⟩ := hdec
    rw [← condense_head, ← ht, List.head?_append, he.absolute]
    rfl
  -- A URL that starts with a slash names no host.
  have hhost : splitHost (websDecodeUrl url) = (websDecodeUrl url, websDecodeUrl url) := by
    unfold splitHost
    have hno : startsWith (websDecodeUrl url) (bytes "http://") = false := by
      rw [Bool.eq_false_iff]
      intro hstart
      obtain ⟨t, ht⟩ := startsWith_eq_true.mp hstart
      have hh : (bytes "http://").head? = some 104 := by decide
      rw [← ht, List.head?_append, hh, Option.some_or, Option.some.injEq] at hhead
      revert hhead
      decide
    rw [hno]
    rfl
  have hparse : (websUrlParse url).path
      = trimExt (splitQuery (websDecodeUrl url) (websDecodeUrl url)).path := by
    unfold websUrlParse
    dsimp only
    rw [hhost]
  rw [hparse] at hne ⊢
  apply plain_trimExt he
  -- None of the characters the path may be cut at occurs in the entry.
  rcases splitQuery_path (websDecodeUrl url) with hq | hq | hq | hq
  · rw [hq]
    exact hdec
  · rw [hq]
    refine plain_takeWhile (by decide) (fun c hc => ?_) hdec
    simpa using (he.plain c hc).2.2.2.2.1
  · rw [hq]
    refine plain_takeWhile (by decide) (fun c hc => ?_) hdec
    simpa using (he.plain c hc).2.1
  · rw [hq] at hne
    exact absurd rfl hne

/-! ## Lying under an entry

An entry is some directories and then the start of a name, which may be empty. A
file lies under it when its first parts are those directories and the next one
starts with that name. -/

/-- The complete directories of an entry. -/
def entryDirs (e : Bytes) : List Bytes :=
  if e.getLast? = some 47 then strtok isSlash e else (strtok isSlash e).dropLast

/-- The start of a name it ends in. -/
def entryName (e : Bytes) : Bytes :=
  if e.getLast? = some 47 then [] else (strtok isSlash e).getLastD []

/-- What the first parts of a file under the entry look like. -/
def entryPattern (e : Bytes) : List (Bytes → Prop) :=
  (entryDirs e).map (fun d s => s = d) ++
    (if entryName e = [] then [] else [fun s => entryName e <+: s])

/-- The parts, each followed by a `/`. -/
def slashed (parts : List Bytes) : Bytes := parts.flatMap fun p => p ++ [47]

/-- The entry is what its directories and its name are written as. -/
structure EntryText (e : Bytes) : Prop where
  text : e = 47 :: (slashed (entryDirs e) ++ entryName e)
  dirs : ∀ d ∈ entryDirs e, 47 ∉ d
  name : 47 ∉ entryName e

instance (e : Bytes) : Decidable (EntryText e) :=
  decidable_of_iff (e = 47 :: (slashed (entryDirs e) ++ entryName e) ∧
      (∀ d ∈ entryDirs e, 47 ∉ d) ∧ 47 ∉ entryName e)
    ⟨fun h => ⟨h.1, h.2.1, h.2.2⟩, fun h => ⟨h.text, h.dirs, h.name⟩⟩

theorem render_slash (parts : List Bytes) : render parts ++ [47] = 47 :: slashed parts := by
  unfold render slashed
  induction parts with
  | nil => rfl
  | cons p parts ih =>
      rw [List.flatMap_cons, List.flatMap_cons, List.append_assoc, ih]
      simp

/-- Up to their first slash, two strings determine each other. -/
theorem prefix_upto_slash {d s x y : Bytes} (hd : 47 ∉ d) (hs : 47 ∉ s) :
    d ++ 47 :: x <+: s ++ 47 :: y ↔ s = d ∧ x <+: y := by
  induction d generalizing s with
  | nil =>
      rcases s with _ | ⟨b, s⟩
      · simp
      · have hb : b ≠ 47 := fun h => hs (h ▸ List.mem_cons_self)
        constructor
        · intro h
          rw [List.nil_append, List.cons_append, List.cons_prefix_cons] at h
          exact absurd h.1.symm hb
        · rintro ⟨h, -⟩
          cases h
  | cons a d ih =>
      have ha : a ≠ 47 := fun h => hd (h ▸ List.mem_cons_self)
      rcases s with _ | ⟨b, s⟩
      · constructor
        · intro h
          rw [List.nil_append, List.cons_append, List.cons_prefix_cons] at h
          exact absurd h.1 ha
        · rintro ⟨h, -⟩
          cases h
      · rw [List.cons_append, List.cons_append, List.cons_prefix_cons,
          ih (fun h => hd (List.mem_cons_of_mem _ h)) (fun h => hs (List.mem_cons_of_mem _ h)),
          List.cons.injEq]
        constructor
        · rintro ⟨h1, h2, h3⟩
          exact ⟨⟨h1.symm, h2⟩, h3⟩
        · rintro ⟨⟨h1, h2⟩, h3⟩
          exact ⟨h1.symm, h2, h3⟩

/-- A name is the start of what stands before the slash. -/
theorem prefix_before_slash {n s y : Bytes} (hn : 47 ∉ n) :
    n <+: s ++ 47 :: y ↔ n <+: s := by
  constructor
  · intro h
    rcases List.prefix_or_prefix_of_prefix h (List.prefix_append _ _) with hpre | ⟨n2, rfl⟩
    · exact hpre
    · rw [List.prefix_append_right_inj] at h
      rcases n2 with _ | ⟨c, n2⟩
      · rw [List.append_nil]
      · rw [List.cons_prefix_cons] at h
        exact absurd (by simp [h.1]) hn
  · exact fun h => h.trans (List.prefix_append _ _)

/-- **Lying under an entry, by parts.** -/
theorem entry_prefix_iff {e : Bytes} (he : EntryText e) {parts : List Bytes}
    (hparts : ∀ p ∈ parts, 47 ∉ p) :
    e <+: render parts ++ [47] ↔ Under (entryPattern e) parts := by
  have key : ∀ (dirs : List Bytes) (name : Bytes) (parts : List Bytes),
      (∀ d ∈ dirs, 47 ∉ d) → 47 ∉ name → (∀ p ∈ parts, 47 ∉ p) →
      (slashed dirs ++ name <+: slashed parts ↔
        Under (dirs.map (fun d s => s = d) ++ (if name = [] then [] else [fun s => name <+: s]))
          parts) := by
    -- One directory of the entry takes one part of the file; the name takes the next.
    intro dirs name
    induction dirs with
    | nil =>
        intro parts _ hname _
        rw [List.map_nil, List.nil_append]
        by_cases hn : name = []
        · rw [if_pos hn, hn]
          simp [slashed, Under]
        · rw [if_neg hn]
          rcases parts with _ | ⟨s, parts⟩
          · simp [slashed, Under, hn]
          · have hs : slashed (s :: parts) = s ++ 47 :: slashed parts := by simp [slashed]
            rw [hs]
            simp only [slashed, List.flatMap_nil, List.nil_append, Under, and_true]
            exact prefix_before_slash hname
    | cons d dirs ih =>
        intro parts hdirs hname hp
        have hd : slashed (d :: dirs) = d ++ 47 :: slashed dirs := by simp [slashed]
        rcases parts with _ | ⟨s, parts⟩
        · rw [hd, List.map_cons, List.cons_append]
          simp [slashed, Under]
        · have hs : slashed (s :: parts) = s ++ 47 :: slashed parts := by simp [slashed]
          rw [hd, hs, List.append_assoc, List.cons_append,
            prefix_upto_slash (hdirs d List.mem_cons_self) (hp s List.mem_cons_self),
            ih parts (fun x hx => hdirs x (List.mem_cons_of_mem _ hx)) hname
              (fun x hx => hp x (List.mem_cons_of_mem _ hx)),
            List.map_cons, List.cons_append]
          exact Iff.rfl
  rw [render_slash]
  nth_rewrite 1 [he.text]
  rw [List.cons_prefix_cons]
  exact (and_iff_right rfl).trans (key _ _ parts he.dirs he.name hparts)

/-! ## The parts of a validated path -/

/-- The tokens of a string hold no delimiter. -/
theorem segments_no_slash (path : Bytes) : ∀ t ∈ segments path, 47 ∉ t := by
  intro t ht hmem
  have h := (strtok_mem isSlash ht).2.2 47 hmem
  revert h
  decide

/-- The loop of `websValidateUrl`, when it does not give up, is the walk that ignores
`..` at the top. -/
theorem validate_walk {toks parts : List Bytes}
    (h : toks.foldl validateStep (some []) = some parts) :
    walk true (toks.map toSeg) = some parts ∧ ∀ p ∈ parts, p ∈ toks := by
  induction toks using List.reverseRecOn generalizing parts with
  | nil =>
      rw [List.foldl_nil, Option.some.injEq] at h
      rw [← h]
      exact ⟨rfl, fun p hp => hp⟩
  | append_singleton toks t ih =>
      rw [List.foldl_append, List.foldl_cons, List.foldl_nil] at h
      -- The last token acts on what the tokens before it have left.
      obtain ⟨ps, hps, hstep⟩ := Option.bind_eq_some_iff.mp h
      obtain ⟨hwalk, hmem⟩ := ih hps
      rw [List.map_append, List.map_singleton, walk_snoc, hwalk, Option.bind_some]
      by_cases hdeep : MAX_URL_DEPTH ≤ ps.length
      · rw [if_pos hdeep] at hstep
        cases hstep
      rw [if_neg hdeep] at hstep
      unfold toSeg
      by_cases hup : t = bytes ".."
      · rw [if_pos hup, Option.some.injEq] at hstep
        rw [if_pos hup, ← hstep]
        refine ⟨?_, fun p hp => List.mem_append_left _ (hmem p (List.mem_of_mem_dropLast hp))⟩
        unfold move
        rcases ps with _ | ⟨x, ps⟩
        · rfl
        · rfl
      · rw [if_neg hup] at hstep ⊢
        by_cases hhere : t = bytes "."
        · rw [if_pos hhere, Option.some.injEq] at hstep
          rw [if_pos hhere, ← hstep]
          exact ⟨rfl, fun p hp => List.mem_append_left _ (hmem p hp)⟩
        · rw [if_neg hhere, Option.some.injEq] at hstep
          rw [if_neg hhere, ← hstep]
          refine ⟨rfl, fun p hp => ?_⟩
          rcases List.mem_append.mp hp with hp | hp
          · exact List.mem_append_left _ (hmem p hp)
          · exact List.mem_append_right _ hp

/-- What a validated path has gone through. -/
theorem websValidateUrl_eq_some {dir path : Bytes} {lpath : Lpath}
    (hval : websValidateUrl dir path = some lpath) :
    ∃ parts, (segments path).foldl validateStep (some []) = some parts ∧ lpath.file = render parts ∧
      lpath.root =
        if strstr (firstToken (validatePath path)) JRD_CFGBAK then JRD_WEBRC_CFGBAK else dir := by
  unfold websValidateUrl at hval
  by_cases hdir : dir = []
  · rw [if_pos hdir] at hval
    simp at hval
  · rw [if_neg hdir] at hval
    obtain ⟨parts, hfold, hrest⟩ := Option.bind_eq_some_iff.mp hval
    refine ⟨parts, hfold, ?_⟩
    dsimp only at hrest
    split_ifs at hrest with hok hcfg
    · rw [← Option.some.inj hrest, if_pos hcfg]
      exact ⟨rfl, rfl⟩
    · rw [← Option.some.inj hrest, if_neg hcfg]
      exact ⟨rfl, rfl⟩

/-- **A validated file lies under an entry exactly when the segments of the path end
under it.** -/
theorem validated_under_iff {e dir path : Bytes} {lpath : Lpath} (he : EntryText e)
    (hval : websValidateUrl dir path = some lpath) :
    e <+: lpath.file ++ [47] ↔ EndsUnder true (entryPattern e) ((segments path).map toSeg) := by
  obtain ⟨parts, hfold, hfile, -⟩ := websValidateUrl_eq_some hval
  obtain ⟨hwalk, hmem⟩ := validate_walk hfold
  have hparts : ∀ p ∈ parts, 47 ∉ p := fun p hp => segments_no_slash path p (hmem p hp)
  rw [hfile, entry_prefix_iff he hparts, endsUnder_iff]
  constructor
  · exact fun h => ⟨parts, hwalk, h⟩
  · rintro ⟨qs, hqs, h⟩
    rw [hwalk, Option.some.injEq] at hqs
    rwa [hqs]

/-! ## The directory of a validated path -/

/-- The second decoding keeps a plain start. -/
theorem plain_validatePath {e path : Bytes} (he : Plain e) (h : e <+: path) : e <+: validatePath path := by
  induction e generalizing path with
  | nil => exact List.nil_prefix
  | cons c e ih =>
      obtain ⟨rest, rfl⟩ := h
      obtain ⟨h0, -, h37, h43, -, h92⟩ := he c List.mem_cons_self
      have htail := ih (fun d hd => he d (List.mem_cons_of_mem c hd)) (List.prefix_append e rest)
      have hstep : validatePath (c :: (e ++ rest)) = c :: validatePath (e ++ rest) := by
        unfold validatePath websDecodeUrl
        rw [decodeChars_cons h37 h43, cstr_cons h0, List.map_cons, if_neg h92]
      rw [List.cons_append, hstep]
      exact List.cons_prefix_cons.mpr ⟨rfl, htail⟩

/-- The first token begins the path. -/
theorem firstToken_begins (path : Bytes) : firstToken path <+: path := by
  unfold firstToken
  nth_rewrite 3 [← List.takeWhile_append_dropWhile (p := isSlash) (l := path)]
  rw [List.prefix_append_right_inj]
  exact List.takeWhile_prefix _

/-- In a path that begins with one slash, a text that begins with a slash too is found in the first
token at its start or not at all. -/
theorem prefix_of_strstr_firstToken {path needle : Bytes} (hslash : path.head? = some 47)
    (hsingle : ¬ [47, 47] <+: path) (hneedle : needle.head? = some 47)
    (h : strstr (firstToken path) needle = true) : needle <+: path := by
  obtain ⟨rest, rfl⟩ := List.head?_eq_some_iff.mp hslash
  obtain ⟨name, rfl⟩ := List.head?_eq_some_iff.mp hneedle
  have hrest : rest.takeWhile isSlash = [] := by
    rcases rest with _ | ⟨c, rest⟩
    · rfl
    · have hc : c ≠ 47 := by
        rintro rfl
        exact hsingle ⟨rest, rfl⟩
      simp [isSlash, hc]
  have hdrop : rest.dropWhile isSlash = rest := by
    have hsplit := List.takeWhile_append_dropWhile (p := isSlash) (l := rest)
    rwa [hrest, List.nil_append] at hsplit
  have htoken : firstToken (47 :: rest) = 47 :: rest.takeWhile fun c => !isSlash c := by
    have h47 : isSlash 47 = true := by decide
    unfold firstToken
    rw [List.takeWhile_cons_of_pos h47, List.dropWhile_cons_of_pos h47, hrest, hdrop]
    rfl
  obtain ⟨before, after, heq⟩ := of_decide_eq_true h
  rcases before with _ | ⟨b, before⟩
  · exact (List.prefix_iff_eq_append.mpr (by simp [← heq])).trans (firstToken_begins _)
  · -- Behind its first character, the first token has no slash.
    rw [htoken, List.cons_append, List.cons_append, List.cons.injEq] at heq
    have hmem : (47 : UInt8) ∈ rest.takeWhile fun c => !isSlash c := by
      rw [← heq.2]
      simp
    have hno := List.mem_takeWhile_imp hmem
    exact absurd hno (by decide)

/-- A path that begins with an entry stays in the directory of the request, if the entry does not go
together with `/cfgbak`. -/
theorem validated_root {e dir path : Bytes} {lpath : Lpath} (he : Entry e)
    (hclash : ¬ e <+: JRD_CFGBAK ∧ ¬ JRD_CFGBAK <+: e) (hlen : 2 ≤ e.length) (hpre : e <+: path)
    (hval : websValidateUrl dir path = some lpath) : lpath.root = dir := by
  obtain ⟨-, -, -, hroot⟩ := websValidateUrl_eq_some hval
  rw [hroot, if_neg]
  intro hcfg
  have hstart := plain_validatePath he.plain hpre
  obtain ⟨rest, hrest⟩ := hstart
  have hslash : (validatePath path).head? = some 47 := by
    rw [← hrest, List.head?_append, he.absolute]
    rfl
  have hsingle : ¬ [47, 47] <+: validatePath path := by
    intro hdouble
    rw [← hrest] at hdouble
    exact he.single (List.prefix_of_prefix_length_le hdouble (List.prefix_append _ _) hlen).isInfix
  have hneedle := prefix_of_strstr_firstToken hslash hsingle (by decide) hcfg
  rw [← hrest] at hneedle
  rcases List.prefix_or_prefix_of_prefix hneedle (List.prefix_append e rest) with h | h
  · exact hclash.2 h
  · exact hclash.1 h

end TestCore.Webs
