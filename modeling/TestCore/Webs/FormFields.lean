/-
The fields of a multipart form, as `websSetEnv` makes variables of them.

`extractUploadedFileContent` turns every part into a token and puts the tokens into the query, a
field as its name, a `=` and its value, as they are. `websSetEnv` then splits and decodes the
query like one that came encoded. A field reaches its variable if there is nothing in it that the
one cuts off and the other takes for more than a character (`FormPart.Plain`), and if no other
part of the request makes a pair with its name (`NamedElsewhere`).

That nothing else will do is a matter of counting: no field yields more than its own weight, and
the variables hold the weight of all the fields, so there is nothing to spare (`shares_tight`).
-/
import TestCore.Webs.FormData
import TestCore.Webs.FormQuery

set_option autoImplicit false

namespace TestCore.Webs

open TestCore.Lib

/-! ## Tokens -/

/-- What stands in quotes is a string without a quote, and a quote is behind it. -/
theorem quotedAt_eq_some {buf : Bytes} {off : ℕ} {x : Bytes} (h : quotedAt buf off = some x) :
    NulFree x ∧ 34 ∉ x ∧ x ++ [34] <+: cstr (buf.drop off) := by
  obtain ⟨n, hn, rfl⟩ := Option.map_eq_some_iff.mp h
  obtain ⟨hlt, hno⟩ := findSub_singleton_eq_some hn
  have htake : (buf.drop off).take n = (cstr (buf.drop off)).take n := by
    rcases cstr_split (buf.drop off) with heq | ⟨rest, heq⟩
    · rw [← heq]
    · conv_lhs => rw [heq]
      exact List.take_append_of_le_length hlt.le
  rw [htake]
  refine ⟨(cstr_nulFree _).take n, hno, ?_⟩
  obtain ⟨-, hquote, -⟩ := findSub_eq_some.mp hn
  obtain ⟨t, ht⟩ := hquote
  refine ⟨t, ?_⟩
  rw [List.append_assoc, ht, List.take_append_drop]

theorem quotedAt_of_text {buf : Bytes} {off : ℕ} {x rest : Bytes} (hno : 34 ∉ x)
    (h : cstr (buf.drop off) = x ++ 34 :: rest) : quotedAt buf off = some x := by
  have hfind : gstrchr (buf.drop off) 34 = some x.length := by
    unfold gstrchr
    rw [h]
    exact findSub_singleton hno
  unfold quotedAt
  rw [hfind, Option.map_some]
  congr 1
  rcases cstr_split (buf.drop off) with heq | ⟨more, heq⟩
  · rw [heq, h, List.take_left]
  · rw [heq, h, List.append_assoc, List.take_left]

/-- A token is a C string. -/
theorem lineToken_nulFree (buf : Bytes) (seen : Bool) (part : Bytes) (len : ℤ) :
    NulFree (lineToken buf seen part len) := by
  have hnil : NulFree [] := by simp [NulFree]
  have heq : NulFree (bytes "=") := by decide
  unfold lineToken
  rcases gstrstr buf (bytes "filename=") with _ | i
  · dsimp only
    rcases gstrstr buf (bytes "form-data; name=") with _ | i
    · exact hnil
    · dsimp only
      unfold paramStr
      rcases hx : quotedAt buf (i + 17) with _ | x
      · exact hnil
      · have hname := ((quotedAt_eq_some hx).1.take (MAX_LINE - 1)).append heq
        dsimp only
        split_ifs
        · exact hnil
        · exact hname.append ((cstr_nulFree part).take _)
        · exact hname.append ((cstr_nulFree part).take _)
        · exact hname
  · dsimp only
    split_ifs
    · exact hnil
    · unfold fileStr
      rcases hx : quotedAt buf (i + 10) with _ | x
      · exact hnil
      · dsimp only
        split_ifs
        · exact hnil
        · have hfile : NulFree (bytes "filename=") := by decide
          exact hfile.append ((quotedAt_eq_some hx).1.take _)

/-- The tokens of parts that the scanner passes over, in order. -/
def Extract.tokens (s : Extract) : List FormPart → List (FormPart × Bytes)
  | [] => []
  | p :: parts =>
      (p, p.token (writeAt s.buf 0 (p.head ++ [0])) s.firstUploadFile) :: (s.past p).tokens parts

theorem tokens_map_fst (s : Extract) (parts : List FormPart) :
    (s.tokens parts).map Prod.fst = parts := by
  induction parts generalizing s with
  | nil => rfl
  | cons p parts ih =>
      rw [Extract.tokens, List.map_cons, ih]

theorem foldl_past_query (s : Extract) (parts : List FormPart) :
    (parts.foldl Extract.past s).query
      = ((s.tokens parts).map Prod.snd).foldl appendQuery s.query := by
  induction parts generalizing s with
  | nil => rfl
  | cons p parts ih =>
      rw [List.foldl_cons, ih, Extract.tokens, List.map_cons, List.foldl_cons, past_query]

/-- A token's pairs go behind those of the query. -/
theorem queryPairs_appendQuery {query : Option Bytes} {token : Bytes}
    (hquery : NulFree (query.getD [])) (htoken : NulFree token) :
    queryPairs ((appendQuery query token).getD []) = queryPairs (query.getD []) ++ queryPairs token ∧
      NulFree ((appendQuery query token).getD []) := by
  unfold appendQuery
  have hnil : queryPairs [] = [] := rfl
  by_cases hempty : token = []
  · rw [if_pos hempty, hempty, hnil, List.append_nil]
    exact ⟨rfl, hquery⟩
  · rw [if_neg hempty]
    rcases query with _ | q
    · exact ⟨rfl, htoken⟩
    · dsimp only
      rw [Option.getD_some] at hquery ⊢
      by_cases hq : q = []
      · rw [if_pos hq, Option.getD_some, hq]
        exact ⟨rfl, htoken⟩
      · have hamp : q ++ bytes "&" ++ token = q ++ 38 :: token := by
          rw [List.append_assoc]
          rfl
        rw [if_neg hq, Option.getD_some, hamp, queryPairs_amp hquery]
        exact ⟨rfl, hquery.append (htoken.cons (by decide))⟩

theorem queryPairs_tokens {query : Option Bytes} {tokens : List Bytes}
    (hquery : NulFree (query.getD [])) (htokens : ∀ t ∈ tokens, NulFree t) :
    queryPairs ((tokens.foldl appendQuery query).getD [])
      = queryPairs (query.getD []) ++ tokens.flatMap queryPairs := by
  induction tokens generalizing query with
  | nil => simp
  | cons t tokens ih =>
      obtain ⟨hpairs, hnul⟩ := queryPairs_appendQuery hquery (htokens t List.mem_cons_self)
      rw [List.foldl_cons, ih hnul fun t' ht' => htokens t' (List.mem_cons_of_mem t ht'), hpairs,
        List.flatMap_cons, List.append_assoc]

/-! ## Fields -/

/-- The value of the first `name`. -/
def FormPart.name (p : FormPart) : Bytes :=
  ((p.attrs.find? fun a => !a.isFile).map FormAttr.value).getD []

/-- A part that is no file has one name, and its content is text. -/
structure FormPart.IsField (p : FormPart) : Prop where
  named : ∃ a, p.attrs = [a] ∧ a.isFile = false
  text : NulFree p.content

/-- A field as the scanner reads it: ` name="N"` with one blank and in quotes, on a line of which
the closing quote gets into `buf`, and a value for which there is room behind the name. -/
structure FormPart.Written (p : FormPart) : Prop where
  attrs : p.attrs = [{ isFile := false, value := p.name }]
  name : p.name ≠ [] ∧ 34 ∉ p.name ∧ ¬ bytes "filename=" <:+: p.name
  line : p.line.length < MAX_LINE
  room : p.name.length + 1 + p.content.length < MAX_LINE

instance (p : FormPart) : Decidable p.Written :=
  decidable_of_iff (p.attrs = [{ isFile := false, value := p.name }] ∧
      (p.name ≠ [] ∧ 34 ∉ p.name ∧ ¬ bytes "filename=" <:+: p.name) ∧ p.line.length < MAX_LINE ∧
      p.name.length + 1 + p.content.length < MAX_LINE)
    ⟨fun ⟨h1, h2, h3, h4⟩ => ⟨h1, h2, h3, h4⟩, fun h => ⟨h.attrs, h.name, h.line, h.room⟩⟩

/-- The line up to the attribute, and the line of the attribute up to its value. -/
def FormPart.lineStart (p : FormPart) : Bytes := bytes "Content-Disposition:" ++ p.blanks

/-- The text behind the first `f` of the line, up to the value. -/
def nameStart (blanks : Bytes) : Bytes := bytes "orm-data;" ++ blanks ++ bytes "name="

/-- The value as it is written. -/
def FormAttr.written (a : FormAttr) : Bytes := if a.quoted then 34 :: (a.value ++ [34]) else a.value

section Field

variable {B : Bytes} {p : FormPart} {a : FormAttr}

theorem field_name (hattrs : p.attrs = [a]) (hname : a.isFile = false) : p.name = a.value := by
  unfold FormPart.name
  rw [hattrs]
  simp [hname]

theorem field_line (hattrs : p.attrs = [a]) (hname : a.isFile = false) :
    p.line = p.lineStart ++ 102 :: (nameStart a.blanks ++ a.written) := by
  have hform : bytes "form-data" ++ bytes ";" = 102 :: bytes "orm-data;" := by decide
  have htext : a.text = a.blanks ++ bytes "name=" ++ a.written := by
    unfold FormAttr.text FormAttr.written
    rw [hname, quote_eq]
    simp
  unfold FormPart.line FormPart.lineStart nameStart
  rw [hattrs, List.flatMap_singleton, htext, ← List.append_assoc _ (bytes ";"),
    List.append_assoc _ (bytes "form-data"), hform]
  simp

theorem lineStart_no_f (h : Blanks p.blanks) : 102 ∉ p.lineStart := by
  have hfixed : (102 : UInt8) ∉ bytes "Content-Disposition:" := by decide
  unfold FormPart.lineStart
  rw [List.mem_append, not_or]
  exact ⟨hfixed, fun hmem => absurd (h 102 hmem) (by decide)⟩

theorem nameStart_no_f {blanks : Bytes} (h : Blanks blanks) : 102 ∉ nameStart blanks := by
  have hfixed : (102 : UInt8) ∉ bytes "orm-data;" := by decide
  unfold nameStart
  rw [List.mem_append, List.mem_append, not_or, not_or]
  exact ⟨⟨hfixed, fun hmem => absurd (h 102 hmem) (by decide)⟩, name_no_f⟩

/-- Where a pattern that begins with an `f` is found in the line. -/
theorem found_in_head (hattrs : p.attrs = [a]) (hname : a.isFile = false) (hb : Blanks p.blanks)
    (hab : Blanks a.blanks) {pat : Bytes} {i : ℕ} (h : 102 :: pat <+: p.head.drop i) :
    (i = p.lineStart.length ∧ pat <+: nameStart a.blanks ++ (a.written ++ [13])) ∨
      p.lineStart.length + (nameStart a.blanks).length + 1 ≤ i := by
  have hline : 102 :: pat <+: (p.line ++ [13]).drop i := by
    refine h.trans ?_
    unfold FormPart.head
    rw [List.drop_take]
    exact List.take_prefix _ _
  rw [field_line hattrs hname, List.append_assoc, List.cons_append, List.append_assoc] at hline
  rcases start_of_prefix_drop (lineStart_no_f hb) (nameStart_no_f hab) hline with rfl | hle
  · left
    rw [List.drop_left] at hline
    exact ⟨rfl, (List.cons_prefix_cons.mp hline).2⟩
  · exact Or.inr hle

/-- No `filename=` begins before the value. -/
theorem filename_in_head (hattrs : p.attrs = [a]) (hname : a.isFile = false) (hb : Blanks p.blanks)
    (hab : Blanks a.blanks) {i : ℕ} (h : bytes "filename=" <+: p.head.drop i) :
    p.lineStart.length + (nameStart a.blanks).length + 1 ≤ i := by
  rw [filename_chars.2.2.2.2] at h
  rcases found_in_head hattrs hname hb hab h with ⟨-, hpre⟩ | hle
  · exfalso
    have hi : bytes "ilename=" = 105 :: bytes "lename=" := by decide
    have ho : bytes "orm-data;" = 111 :: bytes "rm-data;" := by decide
    unfold nameStart at hpre
    rw [hi, ho] at hpre
    exact absurd (List.cons_prefix_cons.mp hpre).1 (by decide)
  · exact hle

/-- Before the value, `form-data; name=` is only found behind one blank. -/
theorem name_in_head (hattrs : p.attrs = [a]) (hname : a.isFile = false) (hb : Blanks p.blanks)
    (hab : Blanks a.blanks) {i : ℕ} (h : bytes "form-data; name=" <+: p.head.drop i) :
    (i = p.lineStart.length ∧ a.blanks = [32]) ∨
      p.lineStart.length + (nameStart a.blanks).length + 1 ≤ i := by
  have hf : bytes "form-data; name=" = 102 :: (bytes "orm-data;" ++ (32 :: 110 :: bytes "ame=")) := by
    decide
  rw [hf] at h
  rcases found_in_head hattrs hname hb hab h with ⟨hi, hpre⟩ | hle
  · left
    refine ⟨hi, ?_⟩
    have hn : bytes "name=" = 110 :: bytes "ame=" := by decide
    unfold nameStart at hpre
    rw [List.append_assoc, List.append_assoc, List.prefix_append_right_inj, hn] at hpre
    -- One blank, and behind it the name.
    rcases hblanks : a.blanks with _ | ⟨c, _ | ⟨d, blanks⟩⟩
    · rw [hblanks] at hpre
      exact absurd (List.cons_prefix_cons.mp hpre).1 (by decide)
    · rw [hblanks] at hpre
      rw [(List.cons_prefix_cons.mp hpre).1]
    · rw [hblanks] at hpre hab
      have hd := (List.cons_prefix_cons.mp (List.cons_prefix_cons.mp hpre).2).1
      exact absurd (hab d (by simp)) (by rw [← hd]; decide)
  · exact Or.inr hle

/-- What stands in quotes from somewhere in the value on is a part of it: the whole of it only
right behind its own quote. -/
theorem quoted_in_value {j : ℕ} (hj : 1 ≤ j) {x : Bytes} (hx : 34 ∉ x)
    (h : x ++ [34] <+: (a.written ++ [13]).drop j) :
    x.Sublist a.value ∧ x.length + (j - 1) ≤ a.value.length ∧
      (x.length = a.value.length → a.quoted = true ∧ j = 1) := by
  unfold FormAttr.written at h
  rcases hquoted : a.quoted with _ | _
  · -- A quote that stands in the value itself.
    rw [hquoted, if_neg (by decide)] at h
    by_cases hle : j ≤ a.value.length
    · rw [List.drop_append_of_le_length hle] at h
      rcases List.prefix_concat_iff.mp h with heq | hpre
      · exact absurd (List.append_inj' heq rfl).2 (by decide)
      · have hlen := hpre.length_le
        rw [List.length_append, List.length_singleton, List.length_drop] at hlen
        have hx' : x <+: a.value.drop j := (List.prefix_append _ _).trans hpre
        exact ⟨hx'.sublist.trans (List.drop_sublist _ _), by omega, fun heq => by omega⟩
    · rw [List.drop_of_length_le (by simp; omega)] at h
      exact absurd (List.prefix_nil.mp h) (by simp)
  · obtain ⟨n, rfl⟩ : ∃ n, j = n + 1 := ⟨j - 1, by omega⟩
    have hdrop : (34 :: (a.value ++ [34]) ++ [13]).drop (n + 1) = (a.value ++ 34 :: [13]).drop n := by
      simp
    rw [hquoted, if_pos rfl, hdrop] at h
    by_cases hle : n ≤ a.value.length
    · rw [List.drop_append_of_le_length hle] at h
      have hx' : x <+: a.value.drop n := prefix_of_prefix_over hx ((List.prefix_append _ _).trans h)
      have hlen := hx'.length_le
      rw [List.length_drop] at hlen
      exact ⟨hx'.sublist.trans (List.drop_sublist _ _), by omega, fun heq => ⟨rfl, by omega⟩⟩
    · have hmem : (34 : UInt8) ∈ (a.value ++ 34 :: [13]).drop n := h.subset (by simp)
      rw [List.drop_append, List.drop_of_length_le (by omega), List.nil_append] at hmem
      obtain ⟨d, hd⟩ : ∃ d, n - a.value.length = d + 1 := ⟨n - a.value.length - 1, by omega⟩
      rw [hd, List.drop_succ_cons] at hmem
      exact absurd (List.mem_of_mem_drop hmem) (by decide)

/-- From the value on. -/
theorem line_drop (hattrs : p.attrs = [a]) (hname : a.isFile = false) (j : ℕ) :
    (p.line ++ [13]).drop (p.lineStart.length + (nameStart a.blanks).length + 1 + j)
      = (a.written ++ [13]).drop j := by
  have hcut : p.line ++ [13]
      = (p.lineStart ++ 102 :: nameStart a.blanks) ++ (a.written ++ [13]) := by
    rw [field_line hattrs hname]
    simp
  have hlen : (p.lineStart ++ 102 :: nameStart a.blanks).length
      = p.lineStart.length + (nameStart a.blanks).length + 1 := by
    rw [List.length_append, List.length_cons]
    omega
  rw [hcut, ← hlen, ← List.drop_drop, List.drop_left]

/-- The string in `buf`. -/
theorem cstr_head (h : p.Framed B) (b : Bytes) : cstr (writeAt b 0 (p.head ++ [0])) = p.head := by
  rw [writeAt_zero, List.append_assoc, cstr_append h.head_nulFree, List.singleton_append,
    cstr_zero_cons, List.append_nil]

/-- What is found in quotes behind a `=` and one more character is in the line, and in what of it
got into `buf`: behind the line there is nothing. -/
theorem quoted_in_head (h : p.Framed B) {b : Bytes} (hb : b.length ≤ MAX_LINE) {pat : Bytes}
    (hpat : pat.getLast? = some 61) {i : ℕ} (hi : pat <+: p.head.drop i) {x : Bytes}
    (hx : quotedAt (writeAt b 0 (p.head ++ [0])) (i + pat.length + 1) = some x) :
    34 ∉ x ∧ x ++ [34] <+: (p.line ++ [13]).drop (i + pat.length + 1) ∧
      i + pat.length + 1 + (x.length + 1) ≤ MAX_LINE - 1 := by
  obtain ⟨-, hno, hpre⟩ := quotedAt_eq_some hx
  have hcstr := cstr_head h b
  have hcap : p.head.length ≤ MAX_LINE - 1 := List.length_take_le _ _
  have hprefix : p.head <+: p.line ++ [13] := List.take_prefix _ _
  obtain ⟨t, ht⟩ := hi
  have hlen := congrArg List.length ht
  rw [List.length_append, List.length_drop] at hlen
  have hpos : 0 < pat.length := by
    rcases pat with _ | ⟨c, pat⟩
    · cases hpat
    · exact Nat.succ_pos _
  by_cases hin : i + pat.length + 1 ≤ p.head.length
  · rw [cstr_drop (by rw [hcstr]; exact hin), hcstr] at hpre
    have hxlen := hpre.length_le
    rw [List.length_append, List.length_singleton, List.length_drop] at hxlen
    refine ⟨hno, hpre.trans ?_, by omega⟩
    obtain ⟨u, hu⟩ := hprefix
    rw [← hu, List.drop_append_of_le_length hin]
    exact List.prefix_append _ _
  · -- The `=` is the last character: the line was cut there, and `buf` is full.
    exfalso
    have hnil : t = [] := List.length_eq_zero_iff.mp (by omega)
    have hlast : p.head.getLast? = some 61 := by
      rw [← List.take_append_drop i p.head, ← ht, hnil, List.append_nil,
        List.getLast?_append_of_ne_nil _ (List.ne_nil_of_length_pos hpos), hpat]
    have hfull : p.head.length = MAX_LINE - 1 := by
      by_contra hshort
      have hall : p.head = p.line ++ [13] := by
        unfold FormPart.head at hshort ⊢
        rw [List.length_take] at hshort
        exact List.take_of_length_le (by omega)
      rw [hall] at hlast
      simp at hlast
    have hend : (writeAt b 0 (p.head ++ [0])).drop (i + pat.length + 1) = [] := by
      apply List.drop_of_length_le
      rw [writeAt_zero, List.length_append, List.length_drop, List.length_append,
        List.length_singleton]
      unfold MAX_LINE at *
      omega
    rw [hend] at hpre
    exact absurd (List.prefix_nil.mp hpre) (by simp)

/-- A field that is taken for a file loses its name. -/
theorem file_token (h : p.Framed B) (hattrs : p.attrs = [a]) (hname : a.isFile = false) {b : Bytes}
    (hb : b.length ≤ MAX_LINE) {i : ℕ} (hi : bytes "filename=" <+: p.head.drop i) :
    fileStr (writeAt b 0 (p.head ++ [0])) i = [] ∨
      61 ∈ fileStr (writeAt b 0 (p.head ++ [0])) i ∧
        weight (fileStr (writeAt b 0 (p.head ++ [0])) i) ≤ weight a.value := by
  have hlast : (bytes "filename=").getLast? = some 61 := by decide
  have hlen : (bytes "filename=").length = 9 := by decide
  have hweight : weight (bytes "filename=") = 9 := by decide
  have hab := (h.attrs a (by rw [hattrs]; exact List.mem_cons_self)).1
  have hle := filename_in_head hattrs hname h.blanks hab hi
  unfold fileStr
  rcases hx : quotedAt (writeAt b 0 (p.head ++ [0])) (i + 10) with _ | x
  · exact Or.inl rfl
  dsimp only
  split_ifs with hempty
  · exact Or.inl rfl
  right
  refine ⟨List.mem_append_left _ filename_chars.2.2.2.1, ?_⟩
  have hquoted := quoted_in_head h hb hlast hi (x := x)
  rw [hlen] at hquoted
  obtain ⟨hno, hpre, -⟩ := hquoted hx
  obtain ⟨j, hj⟩ : ∃ j, i + 9 + 1 = p.lineStart.length + (nameStart a.blanks).length + 1 + (j + 10) :=
    ⟨i - (p.lineStart.length + (nameStart a.blanks).length + 1), by omega⟩
  rw [hj, line_drop hattrs hname] at hpre
  obtain ⟨hsub, hshort, -⟩ := quoted_in_value (by omega) hno hpre
  have hx1 := weight_le (List.take_sublist (MAX_LINE - 1) x)
  have hx2 := weight_sublist hsub
  rw [weight_append, hweight]
  omega

/-- The token of a name: the value behind it is cut if there is not enough room. -/
theorem paramStr_eq {buf : Bytes} {i : ℕ} {x content : Bytes} (hx : quotedAt buf (i + 17) = some x)
    (hne : x ≠ []) (hlen : x.length < MAX_LINE) (hcontent : NulFree content) :
    ∃ n, paramStr buf i content content.length = x ++ 61 :: content.take n ∧
      (content.length ≤ n ↔ content = [] ∨ x.length + 1 + content.length < MAX_LINE) := by
  have heq : bytes "=" = [61] := by decide
  have htake : x.take (MAX_LINE - 1) = x := List.take_of_length_le (by omega)
  unfold paramStr
  rw [hx]
  dsimp only
  rw [if_neg hne, htake, heq, cstr_of_nulFree hcontent, List.length_append, List.length_singleton]
  by_cases hpos : content = []
  · refine ⟨0, ?_, by simp [hpos]⟩
    rw [hpos]
    rfl
  · have hlt : 0 < content.length := List.length_pos_iff.mpr hpos
    rw [if_pos (by omega)]
    by_cases hroom : (content.length : ℤ) < ((MAX_LINE - (x.length + 1) : ℕ) : ℤ)
    · refine ⟨content.length, ?_, ?_⟩
      · rw [if_pos hroom, Int.toNat_natCast, List.append_assoc]
        rfl
      · refine iff_of_true le_rfl (Or.inr ?_)
        omega
    · refine ⟨MAX_LINE - (x.length + 1) - 1, ?_, ?_⟩
      · rw [if_neg hroom, List.append_assoc]
        rfl
      · refine iff_of_false (by omega) ?_
        rw [not_or]
        exact ⟨hpos, by omega⟩

/-- How far into the value a name is read, the opening quote included. -/
theorem name_offset (hattrs : p.attrs = [a]) (hname : a.isFile = false) (hb : Blanks p.blanks)
    (hab : Blanks a.blanks) {i : ℕ} (h : bytes "form-data; name=" <+: p.head.drop i) :
    ∃ j, i + 16 + 1 = p.lineStart.length + (nameStart a.blanks).length + 1 + j ∧ 1 ≤ j ∧
      (j = 1 → a.blanks = [32]) := by
  rcases name_in_head hattrs hname hb hab h with ⟨hstart, hblanks⟩ | hle
  · have hns : (nameStart [32]).length = 15 := by decide
    refine ⟨1, ?_, le_rfl, fun _ => hblanks⟩
    rw [hblanks, hns, hstart]
  · exact ⟨i + 16 - (p.lineStart.length + (nameStart a.blanks).length), by omega, by omega,
      fun hone => by omega⟩

theorem quoted_line_length (hattrs : p.attrs = [a]) (hname : a.isFile = false)
    (hquoted : a.quoted = true) :
    p.line.length = p.lineStart.length + (nameStart a.blanks).length + 1 + (a.value.length + 2) := by
  have hwritten : a.written.length = a.value.length + 2 := by
    unfold FormAttr.written
    rw [if_pos hquoted, List.length_cons, List.length_append, List.length_singleton]
  rw [field_line hattrs hname, List.length_append, List.length_cons, List.length_append, hwritten]
  omega

theorem value_in_line (hattrs : p.attrs = [a]) (hname : a.isFile = false) : a.value <:+: p.line := by
  have hwritten : a.value <:+: a.written := by
    unfold FormAttr.written
    split_ifs
    · exact (List.prefix_append _ _).isInfix.trans (List.suffix_cons _ _).isInfix
    · exact List.infix_rfl
  rw [field_line hattrs hname]
  exact hwritten.trans
    ((List.suffix_append _ _).trans ((List.suffix_cons _ _).trans (List.suffix_append _ _))).isInfix

/-- **A field is written into the query as it should be, or something of it is missing there.** -/
theorem param_token (h : p.Framed B) (hattrs : p.attrs = [a]) (hname : a.isFile = false)
    (htext : NulFree p.content) (hfile : ¬ p.TakenForFile) {b : Bytes} (hb : b.length ≤ MAX_LINE)
    {i : ℕ} (hi : bytes "form-data; name=" <+: p.head.drop i) {t : Bytes}
    (ht : t = paramStr (writeAt b 0 (p.head ++ [0])) i p.content p.content.length) :
    t = [] ∨ 61 ∈ t ∧ (weight t < weight (p.name ++ 61 :: p.content) ∨
      (t = p.name ++ 61 :: p.content ∧ p.Written)) := by
  have hlast : (bytes "form-data; name=").getLast? = some 61 := by decide
  have hlen : (bytes "form-data; name=").length = 16 := by decide
  have hab := (h.attrs a (by rw [hattrs]; exact List.mem_cons_self)).1
  have hvalue := field_name hattrs hname
  rcases hx : quotedAt (writeAt b 0 (p.head ++ [0])) (i + 17) with _ | x
  · left
    rw [ht]
    unfold paramStr
    rw [hx]
  by_cases hempty : x = []
  · left
    rw [ht]
    unfold paramStr
    rw [hx]
    exact if_pos hempty
  right
  have hquoted := quoted_in_head h hb hlast hi (x := x)
  rw [hlen] at hquoted
  obtain ⟨hno, hpre, hfit⟩ := hquoted hx
  have hshort : x.length + 19 ≤ MAX_LINE := by
    unfold MAX_LINE at hfit ⊢
    omega
  obtain ⟨n, htok, hroom⟩ := paramStr_eq hx hempty (by omega) htext
  rw [ht, htok]
  refine ⟨by simp, ?_⟩
  -- The name is read from its beginning, or from somewhere further on.
  obtain ⟨j, hj, hpos, hfirst⟩ := name_offset hattrs hname h.blanks hab hi
  rw [hj, line_drop hattrs hname] at hpre
  obtain ⟨hsub, -, hwhole⟩ := quoted_in_value hpos hno hpre
  have hx1 := weight_le hsub
  have hc1 := weight_le (List.take_sublist n p.content)
  rw [hvalue, weight_append, weight_append, weight_cons_of_ne (by decide) (by decide),
    weight_cons_of_ne (by decide) (by decide)]
  by_cases hless : weight x + (weight (p.content.take n) + 1) < weight a.value + (weight p.content + 1)
  · exact Or.inl hless
  right
  have hxeq : x = a.value := eq_of_weight_le hsub (by omega)
  have hceq : p.content.take n = p.content :=
    eq_of_weight_le (List.take_sublist n p.content) (by omega)
  obtain ⟨hquotes, hone⟩ := hwhole (by rw [hxeq])
  have hblanks := hfirst hone
  have hwritten : p.attrs = [{ isFile := false, value := p.name }] := by
    rw [hattrs, hvalue, ← hblanks, ← hname, ← hquotes]
  have hline : p.line.length < MAX_LINE := by
    rw [quoted_line_length hattrs hname hquotes, ← hxeq]
    omega
  rw [hxeq, hceq]
  refine ⟨rfl, hwritten, ⟨?_, ?_, fun hin => ?_⟩, hline, ?_⟩
  · rw [hvalue, ← hxeq]
    exact hempty
  · rw [hvalue, ← hxeq]
    exact hno
  · apply hfile
    rw [FormPart.takenForFile_of_short hline]
    rw [hvalue] at hin
    exact hin.trans (value_in_line hattrs hname)
  · rcases hroom.mp (by rw [← hceq]; exact List.length_take_le _ _) with hnil | hfits
    · rw [hvalue, ← hxeq, hnil, List.length_nil]
      omega
    · rw [hvalue, ← hxeq]
      exact hfits

/-- **What a field adds to the query**: nothing, or something with a `=` that has less weight than
its name and its value, or these, as they are. -/
theorem field_token (h : p.Framed B) (hf : p.IsField) {b : Bytes} (hb : b.length ≤ MAX_LINE)
    (seen : Bool) {t : Bytes} (ht : t = p.token (writeAt b 0 (p.head ++ [0])) seen) :
    t = [] ∨ 61 ∈ t ∧ (weight t < weight (p.name ++ 61 :: p.content) ∨
      (t = p.name ++ 61 :: p.content ∧ p.Written)) := by
  obtain ⟨a, hattrs, hname⟩ := hf.named
  have hcstr := cstr_head h b
  unfold FormPart.token lineToken gstrstr at ht
  rw [hcstr] at ht
  rcases hfile : findSub (bytes "filename=") p.head with _ | i
  · rw [hfile] at ht
    dsimp only at ht
    have hno : ¬ p.TakenForFile := findSub_eq_none_iff_not_within.mp hfile
    rcases hparam : findSub (bytes "form-data; name=") p.head with _ | i
    · rw [hparam] at ht
      exact Or.inl ht
    · rw [hparam] at ht
      exact param_token h hattrs hname hf.text hno hb (findSub_eq_some.mp hparam).2.1 ht
  · rw [hfile] at ht
    dsimp only at ht
    rcases hseen : seen with _ | _
    · rw [hseen, if_neg (by decide)] at ht
      rcases file_token h hattrs hname hb (findSub_eq_some.mp hfile).2.1 with hnil | ⟨heq, hle⟩
      · exact Or.inl (ht.trans hnil)
      · right
        rw [ht, field_name hattrs hname]
        refine ⟨heq, Or.inl ?_⟩
        rw [weight_append, weight_cons_of_ne (by decide) (by decide)]
        omega
    · rw [hseen, if_pos rfl] at ht
      exact Or.inl ht

theorem FormPart.Written.not_takenForFile (hw : p.Written) (h : p.Framed B) : ¬ p.TakenForFile := by
  have hnames : ∀ a ∈ p.attrs, a.isFile = false → ¬ bytes "filename=" <:+: a.value := by
    intro a ha _
    rw [hw.attrs, List.mem_singleton] at ha
    rw [ha]
    exact hw.name.2.2
  rw [FormPart.takenForFile_of_short hw.line, h.filename_in_line hnames]
  unfold FormPart.hasFilename
  rw [hw.attrs]
  simp

/-- **A field that is written like that is put into the query as it is.** -/
theorem FormPart.Written.token (hw : p.Written) (h : p.Framed B) (hf : p.IsField) (b : Bytes)
    (seen : Bool) : p.token (writeAt b 0 (p.head ++ [0])) seen = p.name ++ 61 :: p.content := by
  have hpat : bytes "form-data; name=" = 102 :: nameStart [32] := by decide
  have hstart : (nameStart [32]).length = 15 := by decide
  obtain ⟨hne, hquote, -⟩ := hw.name
  have hcstr := cstr_head h b
  have hblank : Blanks [32] := fun c hc => Or.inl (List.mem_singleton.mp hc)
  obtain ⟨tail, htail⟩ : ∃ tail, p.head = p.line ++ tail := by
    rcases FormPart.head_of_short hw.line with heq | heq
    · exact ⟨[], by rw [heq, List.append_nil]⟩
    · exact ⟨[13], heq⟩
  have hhead : p.head = p.lineStart ++ (bytes "form-data; name=" ++ 34 :: (p.name ++ 34 :: tail)) := by
    rw [htail, field_line hw.attrs rfl, hpat]
    simp [FormAttr.written]
  have hfind : findSub (bytes "form-data; name=") p.head = some p.lineStart.length := by
    refine findSub_eq_some.mpr ⟨by rw [hhead]; simp, ?_, fun j hj hpre => ?_⟩
    · rw [hhead, List.drop_left]
      exact List.prefix_append _ _
    · rw [hpat] at hpre
      rcases found_in_head hw.attrs rfl h.blanks hblank hpre with ⟨heq, -⟩ | hle
      · omega
      · omega
  have hquoted : quotedAt (writeAt b 0 (p.head ++ [0])) (p.lineStart.length + 17) = some p.name := by
    have hcut : p.head = (p.lineStart ++ bytes "form-data; name=" ++ [34]) ++ (p.name ++ 34 :: tail) := by
      rw [hhead]
      simp
    have hlen : (p.lineStart ++ bytes "form-data; name=" ++ [34]).length = p.lineStart.length + 17 := by
      rw [hpat, List.length_append, List.length_append, List.length_cons, hstart]
      rfl
    refine quotedAt_of_text hquote (?_ : _ = p.name ++ 34 :: tail)
    rw [cstr_drop (by rw [hcstr, hcut, List.length_append, hlen]; omega), hcstr, ← hlen]
    nth_rewrite 1 [hcut]
    rw [List.drop_left]
  have hshort : p.name.length < MAX_LINE := by
    have hroom := hw.room
    omega
  obtain ⟨n, htok, hroom⟩ := paramStr_eq hquoted hne hshort hf.text
  have hall : p.content.take n = p.content :=
    List.take_of_length_le (hroom.mpr (Or.inr hw.room))
  unfold FormPart.token lineToken gstrstr
  rw [hcstr, findSub_eq_none_iff_not_within.mpr (hw.not_takenForFile h), hfind]
  dsimp only
  rw [htok, hall]

end Field

/-! ## The variables of a form -/

/-- The parts that are no files. -/
def FormBody.fields (m : FormBody) : List FormPart := m.parts.filter fun p => !p.hasFilename

/-- A form as it may be sent: a body of parts, the fields of which have names of their own. -/
structure FormBody.IsForm (m : FormBody) : Prop where
  framed : m.Framed
  fields : ∀ p ∈ m.fields, p.IsField
  distinct : (m.fields.map FormPart.name).Nodup

/-- The variables that `websSetEnv` sets before those of the query. `websSetVar` takes `NULL` for
the empty string. -/
def hostVars (env : HostEnv) (vars : CgiVars) (query : Option Bytes) : CgiVars :=
  (env.vars (query.getD [])).foldl (fun vars p => websSetVar vars p.1 p.2) vars

/-- `websSetEnv` for a multipart form: the variables afterwards. `extractUploadedFileContent`
leaves `query'` of the query, and `bstrdup` takes `NULL` for the empty string. -/
def websSetEnvForm (env : HostEnv) (vars : CgiVars) (query query' : Option Bytes) : CgiVars :=
  (queryPairs (query'.getD [])).foldl setQueryVar (hostVars env vars query)

/-- The fields reach the form: whatever `buf` holds, the call returns, and then the variable of
every field has its value. -/
def FieldsReachForm (m : FormBody) (env : HostEnv) (vars : CgiVars) (query : Option Bytes) : Prop :=
  ∀ buf, ∃ r, extractUploadedFileContent (some m.delimiter) (some m.text) query buf r ∧
    ∀ p ∈ m.fields, symLookup (websSetEnvForm env vars query r.2.2) p.name = some p.content

/-- A field as the scanner reads it, with nothing in it that `websSetEnv` splits or decodes. -/
structure FormPart.Plain (p : FormPart) : Prop where
  written : p.Written
  amp : 38 ∉ p.name ∧ 38 ∉ p.content
  equals : 61 ∉ p.name
  escapes : Unescaped p.name ∧ Unescaped p.content

/-- Something else makes a variable of this name. -/
inductive NamedElsewhere (m : FormBody) (env : HostEnv) (vars : CgiVars) (query : Option Bytes)
    (name : Bytes) : Prop where
  /-- The server itself, or it is left from before. -/
  | host (value : Bytes) (set : (hostVars env vars query).lookup name = some value)
  /-- The query of the URL. -/
  | url (value : Bytes) (pair : (name, value) ∈ queryPairs (query.getD []))
  /-- The line of a file. -/
  | file (buf : Bytes) (p : FormPart) (token value : Bytes) (hasFilename : p.hasFilename = true)
      (read : (p, token) ∈ (Extract.start (some m.text) query buf).tokens m.parts)
      (pair : (name, value) ∈ queryPairs token)

/-- A part and its token. -/
def tokenPairs (t : FormPart × Bytes) : List (Bytes × Bytes) := queryPairs t.2

/-- The tokens of the fields, and those of the files. -/
def fieldTokens (s : Extract) (parts : List FormPart) : List (FormPart × Bytes) :=
  (s.tokens parts).filter fun t => !t.1.hasFilename

def fileTokens (s : Extract) (parts : List FormPart) : List (FormPart × Bytes) :=
  (s.tokens parts).filter fun t => t.1.hasFilename

/-- All pairs of the query after the call. -/
def formPairs (s : Extract) (parts : List FormPart) : List (Bytes × Bytes) :=
  queryPairs (s.query.getD []) ++ (s.tokens parts).flatMap tokenPairs

section Form

variable {m : FormBody} {env : HostEnv} {vars : CgiVars} {query : Option Bytes}

/-- Every token is that of its part; `buf` does not grow. -/
theorem mem_tokens {s : Extract} {parts : List FormPart} {t : FormPart × Bytes}
    (ht : t ∈ s.tokens parts) :
    t.1 ∈ parts ∧ ∃ b seen, t.2 = t.1.token (writeAt b 0 (t.1.head ++ [0])) seen ∧
      (s.buf.length ≤ MAX_LINE → b.length ≤ MAX_LINE) := by
  induction parts generalizing s with
  | nil => cases ht
  | cons p parts ih =>
      rw [Extract.tokens] at ht
      rcases List.mem_cons.mp ht with rfl | ht
      · refine ⟨List.mem_cons_self, s.buf, s.firstUploadFile, ?_, fun hs => hs⟩
        dsimp only
      · obtain ⟨hmem, b, seen, htok, hb⟩ := ih ht
        refine ⟨List.mem_cons_of_mem p hmem, b, seen, htok, fun hs => hb ?_⟩
        have hhead : p.head.length ≤ MAX_LINE - 1 := List.length_take_le _ _
        rw [past_buf, writeAt_zero, List.length_append, List.length_drop, List.length_append,
          List.length_singleton]
        unfold MAX_LINE at *
        omega

theorem mem_fieldTokens {s : Extract} {t : FormPart × Bytes} :
    t ∈ fieldTokens s m.parts ↔ t ∈ s.tokens m.parts ∧ t.1.hasFilename = false := by
  unfold fieldTokens
  rw [List.mem_filter, Bool.not_eq_true']

/-- The fields are the parts of their tokens. -/
theorem fieldTokens_map_fst (s : Extract) : (fieldTokens s m.parts).map Prod.fst = m.fields := by
  have hmap := tokens_map_fst s m.parts
  unfold fieldTokens FormBody.fields
  conv_rhs => rw [← hmap, List.filter_map]
  rfl

theorem fieldTokens_names (hm : m.IsForm) (s : Extract) :
    ((fieldTokens s m.parts).map fun t => t.1.name).Nodup := by
  have hnames := hm.distinct
  rw [← fieldTokens_map_fst s, List.map_map] at hnames
  exact hnames

theorem exists_fieldToken (s : Extract) {p : FormPart} (hp : p ∈ m.fields) :
    ∃ t ∈ fieldTokens s m.parts, t.1 = p := by
  rw [← fieldTokens_map_fst s] at hp
  exact List.mem_map.mp hp

theorem fieldToken_field {s : Extract} {t : FormPart × Bytes} (ht : t ∈ fieldTokens s m.parts) :
    t.1 ∈ m.fields := by
  rw [← fieldTokens_map_fst s]
  exact List.mem_map_of_mem ht

theorem FormBody.IsForm.framed_field (hm : m.IsForm) {p : FormPart} (hp : p ∈ m.fields) :
    p.Framed m.delimiter :=
  hm.framed.parts p (List.mem_filter.mp hp).1

/-- **What a form leaves**: one result, and the variables are those of its pairs. -/
theorem form_returns (hm : m.IsForm) (hstuck : ¬ m.Stuck) (hq : NulFree (query.getD [])) (buf : Bytes) :
    ∃ r, (∀ r', extractUploadedFileContent (some m.delimiter) (some m.text) query buf r' ↔ r' = r) ∧
      ∀ env vars, ∀ k ≠ [], symLookup (websSetEnvForm env vars query r.2.2) k
        = joinValues ((hostVars env vars query).lookup k)
          ((entriesOf k (formPairs (Extract.start (some m.text) query buf) m.parts)).map Prod.snd) := by
  obtain ⟨s, hs, -, -, hquery⟩ := parts_passed (s := Extract.start (some m.text) query buf)
    hm.framed hstuck hm.framed.parts hm.framed.before rfl
  refine ⟨_, extract_unique hs, fun env vars k hk => ?_⟩
  have hnul : ∀ t ∈ ((Extract.start (some m.text) query buf).tokens m.parts).map Prod.snd,
      NulFree t := by
    intro t ht
    obtain ⟨t', ht', rfl⟩ := List.mem_map.mp ht
    obtain ⟨-, b, seen, htok, -⟩ := mem_tokens ht'
    rw [htok]
    exact lineToken_nulFree _ _ _ _
  have hpairs : queryPairs (s.query.getD [])
      = formPairs (Extract.start (some m.text) query buf) m.parts := by
    rw [hquery, foldl_past_query]
    refine (queryPairs_tokens hq hnul).trans ?_
    rw [List.flatMap_map]
    rfl
  unfold websSetEnvForm
  dsimp only
  rw [symLookup_of_ne_nil _ hk, lookup_foldl_setQueryVar hk, hpairs]

/-- Where the call does not return, nothing reaches the form. -/
theorem not_stuck_of_fieldsReachForm (hm : m.IsForm) (h : FieldsReachForm m env vars query) :
    ¬ m.Stuck := by
  intro hstuck
  obtain ⟨-, ⟨s, hs, -⟩, -⟩ := h []
  exact parts_stuck hm.framed hstuck hm.framed.parts hm.framed.before rfl ⟨_, hs⟩

/-- The pairs of a name: those of the URL's query, of the files and of the fields. -/
theorem entriesOf_formPairs (s : Extract) (name : Bytes) :
    (entriesOf name (formPairs s m.parts)).Perm
      (entriesOf name (queryPairs (s.query.getD [])) ++
        (entriesOf name ((fileTokens s m.parts).flatMap tokenPairs) ++
          entriesOf name ((fieldTokens s m.parts).flatMap tokenPairs))) := by
  unfold formPairs
  rw [entriesOf_append]
  exact (entriesOf_flatMap_perm name tokenPairs (fun t => t.1.hasFilename) (s.tokens m.parts)).append_left _

/-- A name that nothing else has is that of fields. -/
theorem entriesOf_unnamed {name : Bytes} (h : ¬ NamedElsewhere m env vars query name) (buf : Bytes) :
    (hostVars env vars query).lookup name = none ∧
      (entriesOf name (formPairs (Extract.start (some m.text) query buf) m.parts)).Perm
        (entriesOf name
          ((fieldTokens (Extract.start (some m.text) query buf) m.parts).flatMap tokenPairs)) := by
  refine ⟨?_, ?_⟩
  · rcases hhost : (hostVars env vars query).lookup name with _ | value
    · rfl
    · exact absurd (.host value hhost) h
  · have hperm := entriesOf_formPairs (m := m) (Extract.start (some m.text) query buf) name
    have hurl : entriesOf name (queryPairs (query.getD [])) = [] := by
      refine entriesOf_eq_nil.mpr ?_
      rintro ⟨_, value⟩ he rfl
      exact h (.url value he)
    have hfiles : entriesOf name ((fileTokens (Extract.start (some m.text) query buf) m.parts).flatMap
        tokenPairs) = [] := by
      refine entriesOf_eq_nil.mpr ?_
      rintro ⟨_, value⟩ he rfl
      obtain ⟨⟨p, token⟩, ht, he⟩ := List.mem_flatMap.mp he
      obtain ⟨hread, hfile⟩ := List.mem_filter.mp ht
      exact h (.file buf p token value hfile hread he)
    rw [hfiles, List.nil_append] at hperm
    exact hperm.trans (List.Perm.of_eq (congrArg (· ++ _) hurl))

/-- A plain field makes the pair it stands for. -/
theorem tokenPairs_plain (hm : m.IsForm) {s : Extract} {t : FormPart × Bytes}
    (ht : t ∈ fieldTokens s m.parts) (hplain : t.1.Plain) :
    tokenPairs t = [(t.1.name, t.1.content)] := by
  have hfield := fieldToken_field ht
  have hframed := hm.framed_field hfield
  obtain ⟨-, b, seen, htok, -⟩ := mem_tokens (mem_fieldTokens.mp ht).1
  have hname : NulFree t.1.name := by
    have hmem : { isFile := false, value := t.1.name } ∈ t.1.attrs := by
      rw [hplain.written.attrs]
      exact List.mem_cons_self
    exact (hframed.attrs _ hmem).2.1
  have hamp : 38 ∉ t.1.name ++ 61 :: t.1.content := by
    rw [List.mem_append, List.mem_cons, not_or, not_or]
    exact ⟨hplain.amp.1, by decide, hplain.amp.2⟩
  unfold tokenPairs
  rw [htok, hplain.written.token hframed (hm.fields _ hfield)]
  exact queryPairs_plain hplain.written.name.1 hname (hm.fields _ hfield).text hplain.equals hamp
    hplain.escapes.1 hplain.escapes.2

/-- Among plain fields, every name has one pair. -/
theorem entriesOf_plain (hm : m.IsForm) (hplain : ∀ p ∈ m.fields, p.Plain) (s : Extract)
    {p : FormPart} (hp : p ∈ m.fields) :
    entriesOf p.name ((fieldTokens s m.parts).flatMap tokenPairs) = [(p.name, p.content)] := by
  obtain ⟨t, ht, rfl⟩ := exists_fieldToken s hp
  have hpairs : (fieldTokens s m.parts).flatMap tokenPairs
      = (fieldTokens s m.parts).map fun t => (t.1.name, t.1.content) := by
    rw [← List.flatMap_pure_eq_map]
    exact List.flatMap_congr fun t ht => tokenPairs_plain hm ht (hplain _ (fieldToken_field ht))
  rw [hpairs]
  exact entriesOf_own (fieldTokens_names hm s) (fun t => t.1.content) ht

theorem fieldsReachForm_of_plain (hm : m.IsForm) (hstuck : ¬ m.Stuck) (hq : NulFree (query.getD []))
    (hplain : ∀ p ∈ m.fields, p.Plain)
    (hown : ∀ p ∈ m.fields, ¬ NamedElsewhere m env vars query p.name) :
    FieldsReachForm m env vars query := by
  intro buf
  obtain ⟨r, hr, hvars⟩ := form_returns hm hstuck hq buf
  refine ⟨r, (hr r).mpr rfl, fun p hp => ?_⟩
  obtain ⟨hhost, hperm⟩ := entriesOf_unnamed (hown p hp) buf
  rw [entriesOf_plain hm hplain _ hp] at hperm
  rw [hvars env vars p.name (hplain p hp).written.name.1, hhost, List.perm_singleton.mp hperm]
  rfl

/-- Plain fields that reach the form although something else has their name are cut. -/
theorem cut_of_fieldsReachForm (hm : m.IsForm) (hq : NulFree (query.getD []))
    (hplain : ∀ p ∈ m.fields, p.Plain) (h : FieldsReachForm m env vars query) {p : FormPart}
    (hp : p ∈ m.fields) (hnamed : NamedElsewhere m env vars query p.name) :
    p.content.length = 255 := by
  have hne := (hplain p hp).written.name.1
  -- Its own value is among those of the variable, and it is not alone.
  have key : ∀ buf, (hostVars env vars query).lookup p.name ≠ none ∨
      2 ≤ (entriesOf p.name (formPairs (Extract.start (some m.text) query buf) m.parts)).length →
      p.content.length = 255 := by
    intro buf hmore
    obtain ⟨r, hr, hvars⟩ := form_returns hm (not_stuck_of_fieldsReachForm hm h) hq buf
    obtain ⟨r', hr', hreach⟩ := h buf
    have hvalue := hreach p hp
    rw [(hr r').mp hr', hvars env vars p.name hne] at hvalue
    refine joinValues_mem hvalue ?_ (by rwa [List.length_map])
    have hown : (p.name, p.content)
        ∈ entriesOf p.name (formPairs (Extract.start (some m.text) query buf) m.parts) := by
      rw [(entriesOf_formPairs _ _).mem_iff, entriesOf_plain hm hplain _ hp]
      simp
    exact List.mem_map_of_mem hown
  have hlen : ∀ buf, (entriesOf p.name (formPairs (Extract.start (some m.text) query buf)
      m.parts)).length = (entriesOf p.name (queryPairs (query.getD []))).length +
        ((entriesOf p.name ((fileTokens (Extract.start (some m.text) query buf) m.parts).flatMap
          tokenPairs)).length + 1) := by
    intro buf
    rw [(entriesOf_formPairs _ _).length_eq, entriesOf_plain hm hplain _ hp, List.length_append,
      List.length_append]
    rfl
  rcases hnamed with ⟨value, hset⟩ | ⟨value, hpair⟩ | ⟨buf, p', token, value, hfile, hread, hpair⟩
  · refine key [] (Or.inl ?_)
    rw [hset]
    exact Option.some_ne_none value
  · refine key [] (Or.inr ?_)
    have hin : (p.name, value) ∈ entriesOf p.name (queryPairs (query.getD [])) :=
      mem_entriesOf.mpr ⟨hpair, rfl⟩
    have hpos := List.length_pos_of_mem hin
    rw [hlen]
    omega
  · refine key buf (Or.inr ?_)
    have hmem : (p.name, value) ∈ (fileTokens (Extract.start (some m.text) query buf) m.parts).flatMap
        tokenPairs :=
      List.mem_flatMap.mpr ⟨(p', token), List.mem_filter.mpr ⟨hread, hfile⟩, hpair⟩
    have hin : (p.name, value) ∈ entriesOf p.name
        ((fileTokens (Extract.start (some m.text) query buf) m.parts).flatMap tokenPairs) :=
      mem_entriesOf.mpr ⟨hmem, rfl⟩
    have hpos := List.length_pos_of_mem hin
    rw [hlen]
    omega

/-- What stands before the first `=`. -/
theorem first_split {k v k' v' : Bytes} (hk : 61 ∉ k) (h : k ++ 61 :: v = k' ++ 61 :: v') :
    k.length ≤ k'.length := by
  by_contra hlt
  have hpre : k' ++ [61] <+: k ++ 61 :: v := by
    rw [h]
    exact ⟨v', by simp⟩
  rcases List.prefix_or_prefix_of_prefix hpre (List.prefix_append k (61 :: v)) with hin | hin
  · exact hk (hin.subset (by simp))
  · have hle := hin.length_le
    rw [List.length_append, List.length_singleton] at hle
    obtain rfl : k = k' ++ [61] := hin.eq_of_length (by simp; omega)
    exact hk (by simp)

/-- What the variable of a field holds, if nothing else has its name. -/
theorem weight_held (hm : m.IsForm) (hq : NulFree (query.getD []))
    (h : FieldsReachForm m env vars query) {buf : Bytes} {s : Extract}
    (hs : s = Extract.start (some m.text) query buf) {p : FormPart} (hp : p ∈ m.fields)
    (hown : ¬ NamedElsewhere m env vars query p.name) :
    weight (p.name ++ 61 :: p.content)
        ≤ ((entriesOf p.name ((fieldTokens s m.parts).flatMap tokenPairs)).map pairSize).sum ∧
      (((entriesOf p.name ((fieldTokens s m.parts).flatMap tokenPairs)).map pairSize).sum
          = weight (p.name ++ 61 :: p.content) →
        entriesOf p.name ((fieldTokens s m.parts).flatMap tokenPairs) = [(p.name, p.content)]) := by
  obtain ⟨r, hr, hvars⟩ := form_returns hm (not_stuck_of_fieldsReachForm hm h) hq buf
  obtain ⟨r', hr', hreach⟩ := h buf
  have hvalue := hreach p hp
  rw [(hr r').mp hr'] at hvalue
  have hne : p.name ≠ [] := by
    intro hnil
    rw [hnil] at hvalue
    cases hvalue
  obtain ⟨hhost, hperm⟩ := entriesOf_unnamed hown buf
  rw [← hs] at hvars hperm
  rw [hvars env vars p.name hne, hhost] at hvalue
  obtain ⟨hle, htight⟩ := joinValues_pairs hne hvalue
  rw [(hperm.map pairSize).sum_eq] at hle htight
  rw [weight_append, weight_cons_of_ne (by decide) (by decide)]
  refine ⟨by omega, fun hsum => ?_⟩
  rw [htight (by omega)] at hperm
  exact (List.singleton_perm.mp hperm).symm

/-- What the token of a field brings: no more than the weight of the field, and all of it only if
it is the field, and one pair. -/
theorem weight_brought (hm : m.IsForm) {s : Extract} (hbuf : s.buf.length ≤ MAX_LINE)
    {t : FormPart × Bytes} (ht : t ∈ fieldTokens s m.parts) :
    ((tokenPairs t).map pairSize).sum ≤ weight (t.1.name ++ 61 :: t.1.content) ∧
      (((tokenPairs t).map pairSize).sum = weight (t.1.name ++ 61 :: t.1.content) →
        t.1.Written ∧ ∃ k v, t.1.name ++ 61 :: t.1.content = k ++ 61 :: v ∧ 61 ∉ k ∧
          38 ∉ t.1.name ++ 61 :: t.1.content ∧ Unescaped k ∧ Unescaped v ∧ tokenPairs t = [(k, v)]) := by
  have hfield := fieldToken_field ht
  obtain ⟨-, b, seen, htok, hb⟩ := mem_tokens (mem_fieldTokens.mp ht).1
  have hnul : NulFree t.2 := by
    rw [htok]
    exact lineToken_nulFree _ _ _ _
  have hsize := queryPairs_size hnul
  unfold tokenPairs
  rcases field_token (hm.framed_field hfield) (hm.fields _ hfield) (hb hbuf) seen htok with
    hnil | ⟨heq, hlt | ⟨hall, hwritten⟩⟩
  · rw [hnil, weight_append, weight_cons_of_ne (by decide) (by decide)]
    simp [queryPairs]
  · rw [if_pos heq] at hsize
    exact ⟨by omega, fun hsum => by omega⟩
  · rw [if_pos heq, hall] at hsize
    rw [hall] at hnul heq ⊢
    refine ⟨by omega, fun hsum => ⟨hwritten, ?_⟩⟩
    obtain ⟨k, v, hkv, -, hk, hamp, hkun, hvun, hpairs⟩ := queryPairs_tight hnul heq hsum.ge
    exact ⟨k, v, hkv, hk, hamp, hkun, hvun, hpairs⟩

/-- **Fields that reach the form are plain**, if nothing else has their names. The variables hold
the weight of all names and values, and the tokens bring no more than that: so every token brings
all of it, in one pair, and the names of these pairs are those of the fields. -/
theorem plain_of_fieldsReachForm (hm : m.IsForm) (hq : NulFree (query.getD []))
    (hown : ∀ p ∈ m.fields, ¬ NamedElsewhere m env vars query p.name)
    (h : FieldsReachForm m env vars query) : ∀ p ∈ m.fields, p.Plain := by
  -- Any memory will do; with nothing behind `buf`, nothing is read from there.
  obtain ⟨s, hs⟩ : ∃ s, s = Extract.start (some m.text) query [] := ⟨_, rfl⟩
  have hbuf : s.buf.length ≤ MAX_LINE := by
    rw [hs]
    exact Nat.zero_le _
  have hheld := fun (t : FormPart × Bytes) (ht : t ∈ fieldTokens s m.parts) =>
    weight_held hm hq h hs (fieldToken_field ht) (hown _ (fieldToken_field ht))
  have hkeys := fieldTokens_names hm s
  have htight := shares_tight hkeys pairSize (fun t => weight (t.1.name ++ 61 :: t.1.content))
    tokenPairs (fun t ht => (hheld t ht).1) fun t ht => (weight_brought hm hbuf ht).1
  have hpair := fun t ht => (weight_brought hm hbuf ht).2 (htight t ht).1
  -- The names of the pairs are as long as those of the fields.
  have hlength : ∀ t ∈ fieldTokens s m.parts,
      ((tokenPairs t).map fun e => e.1.length).sum = t.1.name.length := by
    refine fun t ht => (shares_tight hkeys (fun e => e.1.length) (fun t => t.1.name.length)
      tokenPairs ?_ ?_ t ht).1
    · intro t ht
      rw [(hheld t ht).2 (htight t ht).2]
      simp
    · intro t ht
      obtain ⟨-, k, v, hkv, hk, -, -, -, hpairs⟩ := hpair t ht
      rw [hpairs]
      simpa using first_split hk hkv.symm
  intro p hp
  obtain ⟨t, ht, rfl⟩ := exists_fieldToken s hp
  obtain ⟨hwritten, k, v, hkv, hk, hamp, hkun, hvun, hpairs⟩ := hpair t ht
  have hlen := hlength t ht
  rw [hpairs, List.map_singleton, List.sum_singleton] at hlen
  obtain ⟨hname, hcontent⟩ := List.append_inj hkv hlen.symm
  rw [← hname] at hk hkun
  rw [← (List.cons.inj hcontent).2] at hvun
  rw [List.mem_append, List.mem_cons, not_or, not_or] at hamp
  exact ⟨hwritten, ⟨hamp.1, hamp.2.2⟩, hk, hkun, hvun⟩

end Form

/-- A form with one field, `op`. -/
def oneField (content : Bytes) : FormBody where
  boundary := bytes "XyZ"
  preamble := none
  parts := [{ attrs := [{ isFile := false, value := bytes "op" }], content := content }]
  padding := []
  epilogue := some []

/-- A server with few variables. -/
def bareEnv : HostEnv := ⟨[], [], [], bytes "/", 80, [], bytes "HTTP/1.1"⟩

theorem oneField_isForm {content : Bytes} (h : (oneField content).WellFormed) :
    (oneField content).IsForm := by
  refine ⟨h.framed, fun p hp => ?_, List.nodup_singleton _⟩
  obtain rfl : p = { attrs := [{ isFile := false, value := bytes "op" }], content := content } :=
    List.mem_singleton.mp hp
  exact ⟨⟨_, rfl, rfl⟩, (h.parts _ List.mem_cons_self).text rfl⟩

end TestCore.Webs
