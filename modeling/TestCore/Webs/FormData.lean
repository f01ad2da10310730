/-
What `extractUploadedFileContent` makes of a well-formed upload.

A body is a preamble, parts and an epilogue; a part is the line `Content-Disposition`, the other
header lines, an empty line and the content, each behind a delimiter line and with a line end
behind it that belongs to the next delimiter. The scanner takes a part in one turn
(`FormPart.Framed.turn`), whatever bytes the content has: it finds the end of the header in the text and
the end of the content by the delimiter alone. So it passes over the parts one by one, keeps the
content of the first with a file, and what stands behind the last delimiter adds nothing. But it may
be taken for one more part: if it is a line without an end that mentions `Content-Disposition`, the
scanner does not get past it (`FormBody.Stuck`).
-/
import TestCore.Webs.Multipart

set_option autoImplicit false

namespace TestCore.Webs

open TestCore.Lib

/-! ## Bodies -/

def CRLF : Bytes := [13, 10]

/-- A line end, or a zero byte. -/
def LineFree (b : Bytes) : Prop := NulFree b ∧ 13 ∉ b ∧ 10 ∉ b

instance (b : Bytes) : Decidable (LineFree b) := inferInstanceAs (Decidable (_ ∧ _))

/-- Spaces and tabs. -/
def Blanks (b : Bytes) : Prop := ∀ c ∈ b, c = 32 ∨ c = 9

instance (b : Bytes) : Decidable (Blanks b) := inferInstanceAs (Decidable (∀ c ∈ b, c = 32 ∨ c = 9))

/-- An attribute of a `Content-Disposition` line: `name` or `filename`. -/
structure FormAttr where
  blanks : Bytes := [32]
  isFile : Bool
  quoted : Bool := true
  value : Bytes
  deriving DecidableEq, Repr

/-- The attribute behind its semicolon. -/
def FormAttr.text (a : FormAttr) : Bytes :=
  a.blanks ++ (if a.isFile then bytes "filename=" else bytes "name=") ++
    (if a.quoted then bytes "\"" ++ a.value ++ bytes "\"" else a.value)

/-- A part, with the blanks behind its delimiter and those behind the colon. -/
structure FormPart where
  padding : Bytes := []
  blanks : Bytes := [32]
  attrs : List FormAttr
  headers : List Bytes := []
  content : Bytes
  deriving DecidableEq, Repr

def FormPart.hasFilename (p : FormPart) : Bool := p.attrs.any FormAttr.isFile

/-- The `Content-Disposition` line. -/
def FormPart.line (p : FormPart) : Bytes :=
  bytes "Content-Disposition:" ++ p.blanks ++ bytes "form-data" ++
    p.attrs.flatMap fun a => bytes ";" ++ a.text

/-- What stands between the delimiter line and the content. -/
def FormPart.header (p : FormPart) : Bytes :=
  p.line ++ CRLF ++ p.headers.flatMap (· ++ CRLF) ++ CRLF

/-- A part behind its delimiter, up to the next one. -/
def FormPart.text (p : FormPart) : Bytes := p.padding ++ CRLF ++ p.header ++ p.content ++ CRLF

/-- A body. The preamble goes before the first delimiter, and the epilogue behind the last one;
both may be missing. -/
structure FormBody where
  boundary : Bytes
  preamble : Option Bytes
  parts : List FormPart
  padding : Bytes
  epilogue : Option Bytes
  deriving DecidableEq, Repr

/-- `multiPartBoundary`, as `websParseRequest` stores it. -/
def FormBody.delimiter (m : FormBody) : Bytes := bytes "--" ++ m.boundary

/-- The preamble with its line end. -/
def preambleBytes : Option Bytes → Bytes
  | none => []
  | some t => t ++ CRLF

def FormBody.closing (m : FormBody) : Bytes :=
  m.delimiter ++ bytes "--" ++ m.padding ++
    match m.epilogue with
    | none => []
    | some t => CRLF ++ t

def FormBody.text (m : FormBody) : Bytes :=
  preambleBytes m.preamble ++ (m.parts.flatMap (fun p => m.delimiter ++ p.text) ++ m.closing)

/-- A part that may stand between delimiters. The content is free of the delimiter and nothing
else is asked of it if it is that of a file. -/
structure FormPart.WellFormed (delimiter : Bytes) (p : FormPart) : Prop where
  padding : Blanks p.padding
  blanks : Blanks p.blanks
  attrs : ∀ a ∈ p.attrs, Blanks a.blanks ∧ LineFree a.value
  /-- No field name contains `filename=`. -/
  names : ∀ a ∈ p.attrs, a.isFile = false → ¬ bytes "filename=" <:+: a.value
  line : p.line.length < 1024
  headers : ∀ h ∈ p.headers, h ≠ [] ∧ LineFree h
  content : ¬ delimiter <:+: p.content
  text : p.hasFilename = false → NulFree p.content

instance (delimiter : Bytes) (p : FormPart) : Decidable (p.WellFormed delimiter) :=
  decidable_of_iff (Blanks p.padding ∧ Blanks p.blanks ∧
      (∀ a ∈ p.attrs, Blanks a.blanks ∧ LineFree a.value) ∧
      (∀ a ∈ p.attrs, a.isFile = false → ¬ bytes "filename=" <:+: a.value) ∧
      p.line.length < 1024 ∧ (∀ h ∈ p.headers, h ≠ [] ∧ LineFree h) ∧
      ¬ delimiter <:+: p.content ∧ (p.hasFilename = false → NulFree p.content))
    ⟨fun ⟨h1, h2, h3, h4, h5, h6, h7, h8⟩ => ⟨h1, h2, h3, h4, h5, h6, h7, h8⟩,
      fun h => ⟨h.padding, h.blanks, h.attrs, h.names, h.line, h.headers, h.content, h.text⟩⟩

/-- What of it makes a part: it can be told from its header and from the next part, whatever its
line says and however long it is. -/
structure FormPart.Framed (delimiter : Bytes) (p : FormPart) : Prop where
  padding : Blanks p.padding
  blanks : Blanks p.blanks
  attrs : ∀ a ∈ p.attrs, Blanks a.blanks ∧ LineFree a.value
  headers : ∀ h ∈ p.headers, h ≠ [] ∧ LineFree h
  content : ¬ delimiter <:+: p.content

theorem FormPart.WellFormed.framed {delimiter : Bytes} {p : FormPart} (h : p.WellFormed delimiter) :
    p.Framed delimiter :=
  ⟨h.padding, h.blanks, h.attrs, h.headers, h.content⟩

/-- A well-formed body: the delimiter stands nowhere but where it is put, lines end with
`\r\n`, and zero bytes are only in files. -/
structure FormBody.WellFormed (m : FormBody) : Prop where
  boundary : LineFree m.boundary
  preamble : ∀ t ∈ m.preamble, NulFree t ∧ ¬ m.delimiter <:+: t
  parts : ∀ p ∈ m.parts, p.WellFormed m.delimiter
  padding : Blanks m.padding
  epilogue : ∀ t ∈ m.epilogue, NulFree t ∧ ¬ m.delimiter <:+: t

instance (m : FormBody) : Decidable m.WellFormed :=
  decidable_of_iff (LineFree m.boundary ∧ (∀ t ∈ m.preamble, NulFree t ∧ ¬ m.delimiter <:+: t) ∧
      (∀ p ∈ m.parts, p.WellFormed m.delimiter) ∧ Blanks m.padding ∧
      ∀ t ∈ m.epilogue, NulFree t ∧ ¬ m.delimiter <:+: t)
    ⟨fun ⟨h1, h2, h3, h4, h5⟩ => ⟨h1, h2, h3, h4, h5⟩,
      fun h => ⟨h.boundary, h.preamble, h.parts, h.padding, h.epilogue⟩⟩

/-- A body of such parts. -/
structure FormBody.Framed (m : FormBody) : Prop where
  boundary : LineFree m.boundary
  preamble : ∀ t ∈ m.preamble, NulFree t ∧ ¬ m.delimiter <:+: t
  parts : ∀ p ∈ m.parts, p.Framed m.delimiter
  padding : Blanks m.padding
  epilogue : ∀ t ∈ m.epilogue, NulFree t ∧ ¬ m.delimiter <:+: t

theorem FormBody.WellFormed.framed {m : FormBody} (h : m.WellFormed) : m.Framed :=
  ⟨h.boundary, h.preamble, fun p hp => (h.parts p hp).framed, h.padding, h.epilogue⟩

/-- The epilogue is one line, it has no end, and it mentions `Content-Disposition`. -/
def FormBody.Stuck (m : FormBody) : Prop :=
  ∃ t ∈ m.epilogue, bytes "Content-Disposition" <:+: t ∧ 10 ∉ t

instance (m : FormBody) : Decidable m.Stuck :=
  inferInstanceAs (Decidable (∃ t ∈ m.epilogue, _))

/-! ## The fixed texts -/

theorem cr_nulFree : NulFree [13] := by
  intro c hc
  rw [List.mem_singleton.mp hc]
  decide

theorem crlf_nulFree : NulFree CRLF := by
  intro c hc
  rcases List.mem_pair.mp hc with rfl | rfl <;> decide

theorem dashes_free : LineFree (bytes "--") := by decide

/-- The characters of `filename=` that the argument needs. -/
theorem filename_chars : 13 ∉ bytes "filename=" ∧ 34 ∉ bytes "filename=" ∧ 59 ∉ bytes "filename=" ∧
    61 ∈ bytes "filename=" ∧ bytes "filename=" = 102 :: bytes "ilename=" := by decide

theorem not_filename_nil : ¬ bytes "filename=" <:+: [] := by
  rw [filename_chars.2.2.2.2, List.infix_nil]
  exact List.cons_ne_nil _ _

theorem quote_eq : bytes "\"" = [34] := by decide

theorem semicolon_eq : bytes ";" = [59] := by decide

theorem name_no_f : 102 ∉ bytes "name=" := by decide

/-- What a line has besides its values is text without `=`, up to the first attribute. -/
theorem line_start : 61 ∉ bytes "Content-Disposition:" ∧ 61 ∉ bytes "form-data" ∧
    bytes "Content-Disposition:" = bytes "Content-Disposition" ++ [58] := by decide

theorem line_fixed : ∀ t ∈ [bytes "Content-Disposition:", bytes "form-data", bytes ";",
    bytes "filename=", bytes "name=", bytes "\""], 0 ∉ t ∧ 10 ∉ t := by decide

/-! ## Searching in a body -/

/-- A delimiter has no line end in it, and it starts with a `-`. -/
structure Delimiter (B : Bytes) : Prop where
  free : LineFree B
  dash : ∃ t, B = 45 :: t

theorem FormBody.Framed.delimiter {m : FormBody} (h : m.Framed) : Delimiter m.delimiter := by
  obtain ⟨hnul, hcr, hlf⟩ := h.boundary
  refine ⟨⟨dashes_free.1.append hnul, ?_, ?_⟩, ⟨45 :: m.boundary, rfl⟩⟩
  · intro hmem
    exact (List.mem_append.mp hmem).elim dashes_free.2.1 hcr
  · intro hmem
    exact (List.mem_append.mp hmem).elim dashes_free.2.2 hlf

section Body

variable {B t s pre : Bytes}

/-- The delimiter behind a line end is the first one, if there is none in the text before it. -/
theorem Delimiter.find (hB : Delimiter B) (ht : ¬ B <:+: t) (hs : B <+: s) :
    findSub B (t ++ CRLF ++ s) = some (t.length + 2) := by
  have hlen : (t ++ CRLF).length = t.length + 2 := by
    rw [List.length_append]
    rfl
  rw [← hlen]
  apply findSub_append hs
  intro j hj
  rw [hlen] at hj
  by_cases hjt : j ≤ t.length
  · rw [List.append_assoc]
    exact not_prefix_over hB.free.2.1 ht hjt
  · -- At the newline.
    obtain rfl : j = t.length + 1 := by omega
    obtain ⟨u, rfl⟩ := hB.dash
    rw [List.append_assoc, List.drop_append, List.drop_of_length_le (by omega), List.nil_append,
      Nat.add_sub_cancel_left]
    intro h
    exact absurd (List.cons_prefix_cons.mp h).1 (by decide)

/-- What may stand before a delimiter. -/
def Before (B pre : Bytes) : Prop :=
  pre = [] ∨ ∃ t, pre = t ++ CRLF ∧ NulFree t ∧ ¬ B <:+: t

theorem Before.nulFree (h : Before B pre) : NulFree pre := by
  rcases h with rfl | ⟨t, rfl, hnul, -⟩
  · exact nofun
  · exact hnul.append crlf_nulFree

/-- The delimiter is found behind what may stand before it. -/
theorem gstrstr_before (hB : Delimiter B) (hpre : Before B pre) :
    gstrstr (pre ++ (B ++ s)) B = some pre.length := by
  unfold gstrstr
  rw [cstr_append hpre.nulFree, cstr_append hB.free.1]
  rcases hpre with rfl | ⟨t, rfl, -, ht⟩
  · exact findSub_at_start (List.prefix_append _ _)
  · rw [hB.find ht (List.prefix_append _ _), List.length_append]
    rfl

theorem gstrchr_append {a s : Bytes} (hnul : NulFree a) (hlf : 10 ∉ a) :
    gstrchr (a ++ 10 :: s) 10 = some a.length := by
  unfold gstrchr
  rw [cstr_append hnul, cstr_cons (by decide)]
  exact findSub_singleton hlf

/-- A delimiter line: the delimiter, and something without a line end. -/
theorem afterDelimiter_line (hB : Delimiter B) (hpre : Before B pre) {tail part : Bytes}
    (htail : NulFree tail) (hlf : 10 ∉ tail) :
    afterDelimiter B (pre ++ (B ++ (tail ++ CRLF ++ part))) = some part := by
  unfold afterDelimiter
  rw [gstrstr_before hB hpre, Option.bind_some, List.drop_left]
  have hline : B ++ (tail ++ CRLF ++ part) = (B ++ tail ++ [13]) ++ 10 :: part := by
    simp [CRLF]
  have hno : 10 ∉ B ++ tail ++ [13] := by
    simp only [List.mem_append, not_or]
    exact ⟨⟨hB.free.2.2, hlf⟩, by decide⟩
  rw [hline, gstrchr_append ((hB.free.1.append htail).append cr_nulFree) hno, Option.map_some,
    ← List.drop_drop, List.drop_left, List.drop_succ_cons, List.drop_zero]

theorem Blanks.free {b : Bytes} (h : Blanks b) : NulFree b ∧ 10 ∉ b := by
  constructor
  · intro c hc
    rcases h c hc with rfl | rfl <;> decide
  · intro hc
    exact absurd (h 10 hc) (by decide)

end Body

/-! ## One part -/

/-- A character that is neither a newline nor the end is skipped. -/
theorem headerEnd_cons {c : UInt8} (hc : c ≠ 0) (hc' : c ≠ 10) (rest : Bytes) :
    headerEnd (c :: rest) = headerEnd rest := by
  rw [headerEnd.eq_def]
  dsimp only
  rw [if_neg hc, if_neg hc']

/-- Within a line, the search for the empty line does nothing. -/
theorem headerEnd_text {a s : Bytes} (hnul : NulFree a) (hlf : 10 ∉ a) :
    headerEnd (a ++ s) = headerEnd s := by
  induction a with
  | nil => rfl
  | cons c a ih =>
      have hc : c ≠ 0 := hnul c List.mem_cons_self
      have hc' : c ≠ 10 := by
        rintro rfl
        exact hlf List.mem_cons_self
      rw [List.cons_append, headerEnd_cons hc hc']
      exact ih (fun d hd => hnul d (List.mem_cons_of_mem c hd))
        (fun hd => hlf (List.mem_cons_of_mem c hd))

/-- A line that is not empty does not end the header. -/
theorem headerEnd_line {h s : Bytes} (hne : h ≠ []) (hfree : LineFree h) :
    headerEnd (10 :: (h ++ CRLF ++ s)) = headerEnd (10 :: s) := by
  obtain ⟨hnul, hcr, hlf⟩ := hfree
  obtain ⟨c, t, rfl⟩ := List.exists_cons_of_ne_nil hne
  have hc13 : c ≠ 13 := by
    rintro rfl
    exact hcr List.mem_cons_self
  have hc10 : c ≠ 10 := by
    rintro rfl
    exact hlf List.mem_cons_self
  have hskip : headerEnd (10 :: (c :: t ++ CRLF ++ s)) = headerEnd (c :: t ++ CRLF ++ s) := by
    rw [List.cons_append, List.cons_append, headerEnd]
    · simp
    · intro part h
      exact hc10 (List.cons.inj h).1
    · intro part h
      exact hc13 (List.cons.inj h).1
  have hline : c :: t ++ CRLF ++ s = (c :: t ++ [13]) ++ 10 :: s := by
    simp [CRLF]
  rw [hskip, hline]
  apply headerEnd_text (hnul.append cr_nulFree)
  rw [List.mem_append, not_or]
  exact ⟨hlf, by decide⟩

theorem headerEnd_headers {headers : List Bytes} (h : ∀ l ∈ headers, l ≠ [] ∧ LineFree l)
    (content : Bytes) :
    headerEnd (10 :: (headers.flatMap (· ++ CRLF) ++ CRLF ++ content)) = some content := by
  induction headers with
  | nil => rfl
  | cons l headers ih =>
      obtain ⟨hne, hfree⟩ := h l (by simp)
      have hcons : (l :: headers).flatMap (· ++ CRLF) ++ CRLF ++ content
          = l ++ CRLF ++ (headers.flatMap (· ++ CRLF) ++ CRLF ++ content) := by
        simp [List.flatMap_cons]
      rw [hcons, headerEnd_line hne hfree]
      exact ih (fun l' hl' => h l' (List.mem_cons_of_mem l hl'))

/-- An attribute mentions `filename=` exactly if it is that of a file. -/
theorem filename_in_attr {a : FormAttr} (hblanks : Blanks a.blanks)
    (hname : a.isFile = false → ¬ bytes "filename=" <:+: a.value) :
    bytes "filename=" <:+: a.text ↔ a.isFile = true := by
  unfold FormAttr.text
  rcases hfile : a.isFile with _ | _
  · obtain ⟨-, hquote, -, -, hf⟩ := filename_chars
    have hstart : (102 : UInt8) ∉ a.blanks ++ bytes "name=" := by
      rw [List.mem_append, not_or]
      refine ⟨fun hmem => ?_, name_no_f⟩
      rcases hblanks _ hmem with h | h
      · exact absurd h (by decide)
      · exact absurd h (by decide)
    have hno := hname hfile
    have hnil := not_filename_nil
    simp only [Bool.false_eq_true, if_false, iff_false]
    rw [hf] at hno hquote hnil ⊢
    rw [infix_append_of_not_mem hstart]
    rcases a.quoted with _ | _
    · exact hno
    · -- The quotes do not belong to an occurrence.
      have hopen : (102 : UInt8) ∉ ([34] : Bytes) := by decide
      rw [if_pos rfl, quote_eq, List.append_assoc, infix_append_of_not_mem hopen,
        infix_append_mark hquote, not_or]
      exact ⟨hno, hnil⟩
  · simp only [if_true, iff_true]
    exact (List.suffix_append _ _).isInfix.trans (List.prefix_append _ _).isInfix

/-- The attributes of a line, behind something else, mention it exactly if one of them is. -/
theorem filename_in_attrs {attrs : List FormAttr}
    (hattrs : ∀ a ∈ attrs, bytes "filename=" <:+: a.text ↔ a.isFile = true) (u : Bytes) :
    bytes "filename=" <:+: u ++ attrs.flatMap (fun a => bytes ";" ++ a.text) ↔
      bytes "filename=" <:+: u ∨ attrs.any FormAttr.isFile = true := by
  have hmark := filename_chars.2.2.1
  induction attrs generalizing u with
  | nil => simp
  | cons a attrs ih =>
      -- The semicolon cuts the line.
      have hcut : u ++ (a :: attrs).flatMap (fun a => bytes ";" ++ a.text)
          = u ++ 59 :: (a.text ++ attrs.flatMap fun a => bytes ";" ++ a.text) := by
        simp [semicolon_eq]
      have hrest := ih (fun a' ha' => hattrs a' (List.mem_cons_of_mem a ha')) a.text
      rw [hcut, List.any_cons, Bool.or_eq_true]
      refine (infix_append_mark hmark).trans (or_congr_right (hrest.trans ?_))
      exact or_congr_left (hattrs a List.mem_cons_self)

section Part

variable {B : Bytes} {p : FormPart}

theorem FormPart.Framed.line_free (h : p.Framed B) : NulFree p.line ∧ 10 ∉ p.line := by
  have hblanks : ∀ {b : Bytes}, Blanks b → ∀ c ∈ b, c ≠ 0 ∧ c ≠ 10 :=
    fun hb c hc => ⟨hb.free.1 c hc, fun h10 => hb.free.2 (h10 ▸ hc)⟩
  have hfixed : ∀ t ∈ [bytes "Content-Disposition:", bytes "form-data", bytes ";",
      bytes "filename=", bytes "name=", bytes "\""], ∀ c ∈ t, c ≠ 0 ∧ c ≠ 10 := by
    intro t ht c hc
    obtain ⟨hnul, hlf⟩ := line_fixed t ht
    exact ⟨ne_of_mem_of_not_mem hc hnul, ne_of_mem_of_not_mem hc hlf⟩
  have hattr : ∀ a ∈ p.attrs, ∀ c ∈ a.text, c ≠ 0 ∧ c ≠ 10 := by
    intro a ha c hc
    obtain ⟨hb, hnul, -, hlf⟩ := h.attrs a ha
    have hvalue : c ∈ a.value → c ≠ 0 ∧ c ≠ 10 := fun hv => ⟨hnul c hv, fun h10 => hlf (h10 ▸ hv)⟩
    unfold FormAttr.text at hc
    rw [List.mem_append, List.mem_append] at hc
    rcases hc with (hc | hc) | hc
    · exact hblanks hb c hc
    · split_ifs at hc
      · exact hfixed _ (by simp) c hc
      · exact hfixed _ (by simp) c hc
    · split_ifs at hc
      · rw [List.mem_append, List.mem_append] at hc
        rcases hc with (hc | hc) | hc
        · exact hfixed _ (by simp) c hc
        · exact hvalue hc
        · exact hfixed _ (by simp) c hc
      · exact hvalue hc
  have hall : ∀ c ∈ p.line, c ≠ 0 ∧ c ≠ 10 := by
    intro c hc
    unfold FormPart.line at hc
    rw [List.mem_append, List.mem_append, List.mem_append, List.mem_flatMap] at hc
    rcases hc with ((hc | hc) | hc) | ⟨a, ha, hc⟩
    · exact hfixed _ (by simp) c hc
    · exact hblanks h.blanks c hc
    · exact hfixed _ (by simp) c hc
    · rcases List.mem_append.mp hc with hc | hc
      · exact hfixed _ (by simp) c hc
      · exact hattr a ha c hc
  exact ⟨fun c hc => (hall c hc).1, fun hc => (hall 10 hc).2 rfl⟩

/-- The line mentions `filename=` exactly if it has that attribute. -/
theorem FormPart.Framed.filename_in_line (h : p.Framed B)
    (hnames : ∀ a ∈ p.attrs, a.isFile = false → ¬ bytes "filename=" <:+: a.value) :
    bytes "filename=" <:+: p.line ↔ p.hasFilename = true := by
  unfold FormPart.line FormPart.hasFilename
  have hattrs := filename_in_attrs
    (fun a ha => filename_in_attr (h.attrs a ha).1 (hnames a ha))
    (bytes "Content-Disposition:" ++ p.blanks ++ bytes "form-data")
  -- There is no `=` before the first attribute.
  have hstart : ¬ bytes "filename=" <:+: bytes "Content-Disposition:" ++ p.blanks ++ bytes "form-data" := by
    intro hin
    have heq : (61 : UInt8) ∈ bytes "Content-Disposition:" ++ p.blanks ++ bytes "form-data" :=
      hin.subset filename_chars.2.2.2.1
    rw [List.mem_append, List.mem_append] at heq
    rcases heq with (heq | heq) | heq
    · exact line_start.1 heq
    · exact absurd (h.blanks 61 heq) (by decide)
    · exact line_start.2.1 heq
  refine hattrs.trans ⟨fun hor => hor.resolve_left hstart, Or.inr⟩

/-- The line as it comes to stand in `buf`: with its carriage return, as far as there is room. -/
def FormPart.head (p : FormPart) : Bytes := (p.line ++ [13]).take (MAX_LINE - 1)

/-- The scanner takes the part for that of a file. -/
def FormPart.TakenForFile (p : FormPart) : Prop := bytes "filename=" <:+: p.head

instance (p : FormPart) : Decidable p.TakenForFile := inferInstanceAs (Decidable (_ <:+: _))

theorem FormPart.Framed.headLine (h : p.Framed B) (s : Bytes) :
    headLine (p.line ++ CRLF ++ s) = p.head := by
  obtain ⟨hnul, hlf⟩ := h.line_free
  have hcut : p.line ++ CRLF ++ s = (p.line ++ [13]) ++ 10 :: s := by
    simp [CRLF]
  have hno : 10 ∉ p.line ++ [13] := by
    rw [List.mem_append, not_or]
    exact ⟨hlf, by decide⟩
  unfold Webs.headLine FormPart.head
  rw [hcut, gstrchr_append (hnul.append cr_nulFree) hno]
  dsimp only
  rw [List.take_append_of_le_length (Nat.min_le_left _ _), Nat.min_comm, ← List.take_take,
    List.take_length]

theorem FormPart.Framed.head_nulFree (h : p.Framed B) : NulFree p.head :=
  (h.line_free.1.append cr_nulFree).take _

/-- A line that is not too long is in `buf` as a whole, at most without its carriage return. -/
theorem FormPart.head_of_short (h : p.line.length < MAX_LINE) :
    p.head = p.line ∨ p.head = p.line ++ [13] := by
  have hlen : (p.line ++ [13]).length = p.line.length + 1 := by simp
  unfold FormPart.head
  by_cases hfit : p.line.length + 1 ≤ MAX_LINE - 1
  · right
    exact List.take_of_length_le (by omega)
  · left
    have hmax : MAX_LINE - 1 = p.line.length := by omega
    rw [hmax, List.take_left]

/-- What the scanner goes by in a short line is the line. -/
theorem FormPart.takenForFile_of_short (h : p.line.length < MAX_LINE) :
    p.TakenForFile ↔ bytes "filename=" <:+: p.line := by
  have hcr := filename_chars.1
  unfold FormPart.TakenForFile
  rcases FormPart.head_of_short h with heq | heq
  · rw [heq]
  · rw [heq, infix_append_mark hcr]
    exact or_iff_left not_filename_nil

theorem FormPart.WellFormed.takenForFile (h : p.WellFormed B) :
    p.TakenForFile ↔ p.hasFilename = true :=
  (FormPart.takenForFile_of_short h.line).trans (h.framed.filename_in_line h.names)

/-- **The scanner reads a part as it was written**, whatever bytes its content has. -/
theorem FormPart.Framed.partAt (h : p.Framed B) (hB : Delimiter B) {pre next : Bytes}
    (hpre : Before B pre) (hnext : B <+: next) :
    PartAt B (pre ++ (B ++ p.text ++ next)) (p.header ++ (p.content ++ CRLF ++ next))
      (p.content ++ CRLF ++ next) (p.content.length + 2) := by
  obtain ⟨hpadNul, hpadLf⟩ := h.padding.free
  obtain ⟨hlineNul, hlineLf⟩ := h.line_free
  refine ⟨?_, ?_, ?_, hB.find h.content hnext⟩
  · have hcut : B ++ p.text ++ next
        = B ++ (p.padding ++ CRLF ++ (p.header ++ (p.content ++ CRLF ++ next))) := by
      simp [FormPart.text]
    rw [hcut]
    exact afterDelimiter_line hB hpre hpadNul hpadLf
  · have hcut : p.header ++ (p.content ++ CRLF ++ next)
        = p.line ++ (CRLF ++ p.headers.flatMap (· ++ CRLF) ++ CRLF ++ (p.content ++ CRLF ++ next)) := by
      simp [FormPart.header]
    have hstart : bytes "Content-Disposition" <:+: p.line := by
      unfold FormPart.line
      rw [line_start.2.2]
      simp only [List.append_assoc]
      exact (List.prefix_append _ _).isInfix
    rw [hcut, cstr_append hlineNul]
    exact hstart.trans (List.prefix_append _ _).isInfix
  · have hcut : p.header ++ (p.content ++ CRLF ++ next) = (p.line ++ [13]) ++
        10 :: (p.headers.flatMap (· ++ CRLF) ++ CRLF ++ (p.content ++ CRLF ++ next)) := by
      simp [FormPart.header, CRLF]
    have hno : 10 ∉ p.line ++ [13] := by
      rw [List.mem_append, not_or]
      exact ⟨hlineLf, by decide⟩
    rw [hcut, headerEnd_text (hlineNul.append cr_nulFree) hno]
    exact headerEnd_headers h.headers _

end Part

/-! ## A whole body -/

/-- The token of a part whose line is in `buf`. -/
def FormPart.token (p : FormPart) (buf : Bytes) (firstUploadFile : Bool) : Bytes :=
  lineToken buf firstUploadFile p.content p.content.length

/-- The scanner behind a part, its place in the body apart. -/
def Extract.past (s : Extract) (p : FormPart) : Extract :=
  let buf := writeAt s.buf 0 (p.head ++ [0])
  let first : Bool := p.TakenForFile ∧ s.firstUploadFile = false
  { s with
    firstUploadFile := s.firstUploadFile || decide p.TakenForFile
    lenContent := if first then some p.content.length else s.lenContent
    fileContent := if first then some p.content else s.fileContent
    query := appendQuery s.query (p.token buf s.firstUploadFile)
    buf := buf }

theorem past_query (s : Extract) (p : FormPart) : (s.past p).query
    = appendQuery s.query (p.token (writeAt s.buf 0 (p.head ++ [0])) s.firstUploadFile) := by
  dsimp only [Extract.past]

theorem past_buf (s : Extract) (p : FormPart) :
    (s.past p).buf = writeAt s.buf 0 (p.head ++ [0]) := by
  dsimp only [Extract.past]

theorem past_endPart (s : Extract) (p : FormPart) (endPart : Option Bytes) :
    ({ s with endPart := endPart } : Extract).past p = { s.past p with endPart := endPart } := by
  dsimp only [Extract.past]

/-- What a scanner in this state returns if these parts are to come. -/
def Extract.keeps (s : Extract) (parts : List FormPart) : Option Bytes × Option ℤ :=
  if s.firstUploadFile then (s.fileContent, s.lenContent)
  else
    match parts.find? FormPart.hasFilename with
    | none => (s.fileContent, s.lenContent)
    | some p => (some p.content, some (p.content.length : ℤ))

section Scan

variable {m : FormBody} {s : Extract} {pre : Bytes}

/-- A parameter's token has no more in it than the content. -/
theorem paramStr_content (buf : Bytes) (i : ℕ) (content next : Bytes) :
    paramStr buf i (content ++ next) content.length = paramStr buf i content content.length := by
  have htake : ∀ n ≤ content.length, (cstr (content ++ next)).take n = (cstr content).take n := by
    intro n hn
    rcases cstr_split content with hall | ⟨rest, hcut⟩
    · have hnul : NulFree content := by
        rw [hall]
        exact cstr_nulFree content
      rw [cstr_append hnul, cstr_of_nulFree hnul, List.take_append_of_le_length hn]
    · have hnul := cstr_nulFree content
      have hcstr : cstr (content ++ next) = cstr content := by
        conv_lhs => rw [hcut, List.append_assoc, List.cons_append]
        rw [cstr_append hnul, cstr_zero_cons, List.append_nil]
      rw [hcstr]
  unfold paramStr
  rcases quotedAt buf (i + 17) with _ | name
  · rfl
  · dsimp only
    split_ifs with hname hlen hroom
    · rfl
    · rw [htake _ (by omega)]
    · rw [htake _ (by omega)]
    · rfl

theorem lineToken_content (buf : Bytes) (seen : Bool) (content next : Bytes) :
    lineToken buf seen (content ++ next) content.length
      = lineToken buf seen content content.length := by
  unfold lineToken
  rcases gstrstr buf (bytes "filename=") with _ | i
  · dsimp only
    rcases gstrstr buf (bytes "form-data; name=") with _ | i
    · rfl
    · exact paramStr_content buf i content next
  · rfl

/-- **A turn for a part.** -/
theorem FormPart.Framed.turn {B next : Bytes} {p : FormPart} (h : p.Framed B)
    (hB : Delimiter B) (hpre : Before B pre) (hnext : B <+: next)
    (hs : s.endPart = some (pre ++ (B ++ p.text ++ next))) :
    extractUploadedFileContent.turn B s = .inr { s.past p with endPart := some next } := by
  have here := h.partAt hB hpre hnext
  have hhead : Webs.headLine (p.header ++ (p.content ++ CRLF ++ next)) = p.head := by
    have hcut : p.header ++ (p.content ++ CRLF ++ next)
        = p.line ++ CRLF ++ (p.headers.flatMap (· ++ CRLF) ++ CRLF ++ (p.content ++ CRLF ++ next)) := by
      simp [FormPart.header]
    rw [hcut]
    exact h.headLine _
  have hbuf : (s.withLine (p.header ++ (p.content ++ CRLF ++ next))).buf
      = writeAt s.buf 0 (p.head ++ [0]) := by
    unfold Extract.withLine
    rw [hhead]
  have hfile : FileLine (p.header ++ (p.content ++ CRLF ++ next)) ↔ p.TakenForFile := by
    unfold FileLine FormPart.TakenForFile
    rw [hhead]
  have hlen : (((p.content.length + 2 : ℕ) : ℤ) - 2) = p.content.length := by omega
  rcases part_cases s (p.header ++ (p.content ++ CRLF ++ next)) (p.content ++ CRLF ++ next)
    (p.content.length + 2) with ⟨-, -, hshort, -⟩ | ⟨s', hs', hrest, hbuf', hseen, hquery, hkept⟩
  · exact absurd hshort (by omega)
  rw [← here.turn hs] at hs'
  have hdrop : (p.content ++ CRLF ++ next).drop (p.content.length + 2) = next := by
    rw [List.append_assoc, ← List.drop_drop, List.drop_left]
    rfl
  rw [hdrop] at hrest
  rw [hbuf] at hbuf'
  rw [decide_eq_decide.mpr hfile] at hseen
  rw [hbuf, hlen, List.append_assoc, lineToken_content] at hquery
  simp only [hfile] at hkept
  rw [Nat.add_sub_cancel, List.append_assoc, List.take_left] at hkept
  rw [hs']
  refine congrArg Sum.inr (Extract.ext ?_ ?_ ?_ ?_ ?_ ?_)
  · exact hrest
  · exact hseen
  · dsimp only [Extract.past]
    split_ifs at hkept with hfirst
    · rw [hkept.2.1]
      simp [hfirst]
    · rw [hkept.1]
      simp [hfirst]
  · dsimp only [Extract.past]
    split_ifs at hkept with hfirst
    · rw [hkept.2.2]
      simp [hfirst]
    · rw [hkept.2]
      simp [hfirst]
  · dsimp only [Extract.past, FormPart.token]
    exact hquery
  · exact hbuf'

/-- A part that is written well is passed over for the next ones. -/
theorem FormPart.WellFormed.keeps {B : Bytes} {p : FormPart} (h : p.WellFormed B)
    (s : Extract) (parts : List FormPart) : (s.past p).keeps parts = s.keeps (p :: parts) := by
  have hfile := h.takenForFile
  unfold Extract.keeps Extract.past
  rw [List.find?_cons]
  by_cases hname : p.hasFilename = true
  · have hyes := hfile.mpr hname
    rw [hname]
    rcases hfirst : s.firstUploadFile with _ | _
    · simp [hyes]
    · simp
  · have hno : ¬ p.TakenForFile := fun hf => hname (hfile.mp hf)
    rw [Bool.eq_false_iff.mpr hname]
    simp [hno]

/-- An epilogue stands behind the line of the last delimiter. -/
theorem afterDelimiter_closing (h : m.Framed) (hpre : Before m.delimiter pre) {t : Bytes}
    (ht : m.epilogue = some t) : afterDelimiter m.delimiter (pre ++ m.closing) = some t := by
  obtain ⟨hpadNul, hpadLf⟩ := h.padding.free
  have hclosing : m.closing = m.delimiter ++ ((bytes "--" ++ m.padding) ++ CRLF ++ t) := by
    simp [FormBody.closing, ht]
  rw [hclosing]
  apply afterDelimiter_line h.delimiter hpre
  · exact dashes_free.1.append hpadNul
  · rw [List.mem_append, not_or]
    exact ⟨dashes_free.2.2, hpadLf⟩

/-- Without an epilogue there is no line behind the last delimiter. -/
theorem afterDelimiter_closing_none (h : m.Framed) (hpre : Before m.delimiter pre)
    (hepilogue : m.epilogue = none) : afterDelimiter m.delimiter (pre ++ m.closing) = none := by
  have hB := h.delimiter
  obtain ⟨hpadNul, hpadLf⟩ := h.padding.free
  have hclosing : m.closing = m.delimiter ++ (bytes "--" ++ m.padding) := by
    simp [FormBody.closing, hepilogue]
  have htailNul : NulFree (bytes "--" ++ m.padding) := dashes_free.1.append hpadNul
  unfold afterDelimiter
  rw [hclosing, gstrstr_before hB hpre, Option.bind_some, List.drop_left, Option.map_eq_none_iff,
    gstrchr_eq_none, cstr_of_nulFree (hB.free.1.append htailNul), List.mem_append, List.mem_append,
    not_or, not_or]
  exact ⟨hB.free.2.2, dashes_free.2.2, hpadLf⟩

/-- The last delimiter and what stands behind it add nothing. -/
theorem closing_returned (h : m.Framed) (hstuck : ¬ m.Stuck) (hpre : Before m.delimiter pre)
    (hs : s.endPart = some (pre ++ m.closing)) :
    ∃ r, EndsWith (extractUploadedFileContent.turn m.delimiter) s (.returned r) ∧
      r.fileContent = s.fileContent ∧ r.lenContent = s.lenContent ∧ r.query = s.query := by
  rcases hepilogue : m.epilogue with _ | t
  · -- The body ends within the line of the delimiter.
    rcases turn_no_line hs (afterDelimiter_closing_none h hpre hepilogue) with hturn | hturn
    · exact ⟨s, (endsWith_inl hturn).mpr rfl, rfl, rfl, rfl⟩
    · exact ⟨_, endsWith_last hturn, rfl, rfl, rfl⟩
  · obtain ⟨htNul, htB⟩ := h.epilogue t hepilogue
    have hturn := turn_line hs (afterDelimiter_closing h hpre hepilogue)
    by_cases hdisp : bytes "Content-Disposition" <:+: cstr t
    · -- It is taken for a part without an end.
      have hlf : 10 ∈ cstr t := by
        by_contra hno
        rw [cstr_of_nulFree htNul] at hdisp hno
        exact hstuck ⟨t, hepilogue, hdisp, hno⟩
      rw [if_neg (not_not.mpr hdisp), if_neg (not_not.mpr hlf)] at hturn
      rcases hheader : headerEnd t with _ | content
      · rw [hheader] at hturn
        exact ⟨_, endsWith_last hturn, rfl, rfl, rfl⟩
      · have hno : findSub m.delimiter content = none :=
          findSub_eq_none_iff_not_within.mpr fun hin =>
            htB (hin.trans (headerEnd_suffix hheader).1.isInfix)
        rw [hheader] at hturn
        dsimp only at hturn
        rw [hno] at hturn
        exact ⟨_, endsWith_last hturn, rfl, rfl, rfl⟩
    · rw [if_pos hdisp] at hturn
      have hnext : ({ s with endPart := some t } : Extract).endPart = some t := rfl
      obtain ⟨r, hr, hkept⟩ := endsWith_no_disposition hnext hdisp
      exact ⟨r, (endsWith_inr hturn).mpr hr, hkept⟩

/-- Where the epilogue is taken for a header, a turn leads back to the last delimiter. -/
theorem closing_stuck (h : m.Framed) (hstuck : m.Stuck) (hpre : Before m.delimiter pre)
    (hs : s.endPart = some (pre ++ m.closing)) :
    ¬ Ends (extractUploadedFileContent.turn m.delimiter) s := by
  obtain ⟨t, hepilogue, hdisp, hlf⟩ := hstuck
  have hturn := turn_line hs (afterDelimiter_closing h hpre hepilogue)
  rw [← cstr_of_nulFree (h.epilogue t hepilogue).1] at hdisp hlf
  rw [if_neg (not_not.mpr hdisp), if_pos hlf] at hturn
  exact not_ends_of_back hturn

/-- Every part begins with the delimiter, and so does the end. -/
theorem delimiter_first (m : FormBody) (parts : List FormPart) :
    m.delimiter <+: parts.flatMap (fun p => m.delimiter ++ p.text) ++ m.closing := by
  rcases parts with _ | ⟨p, parts⟩
  · refine ⟨bytes "--" ++ m.padding ++ (match m.epilogue with | none => [] | some t => CRLF ++ t), ?_⟩
    simp [FormBody.closing]
  · rw [List.flatMap_cons, List.append_assoc, List.append_assoc]
    exact List.prefix_append _ _

theorem FormBody.Framed.before (h : m.Framed) :
    Before m.delimiter (preambleBytes m.preamble) := by
  rcases hpreamble : m.preamble with _ | t
  · exact Or.inl rfl
  · exact Or.inr ⟨t, rfl, h.preamble t hpreamble⟩

/-- Passing over parts does not depend on the place in the body. -/
theorem foldl_past_endPart (parts : List FormPart) (s : Extract) (endPart : Option Bytes) :
    parts.foldl Extract.past { s with endPart := endPart }
      = { parts.foldl Extract.past s with endPart := endPart } := by
  induction parts generalizing s with
  | nil => rfl
  | cons p parts ih => rw [List.foldl_cons, past_endPart, ih, List.foldl_cons]

/-- **The parts of a body**, one turn each: the scanner comes to the last delimiter. -/
theorem parts_visited (h : m.Framed) {parts : List FormPart}
    (hparts : ∀ p ∈ parts, p.Framed m.delimiter) (hpre : Before m.delimiter pre)
    (hs : s.endPart
      = some (pre ++ (parts.flatMap (fun p => m.delimiter ++ p.text) ++ m.closing))) :
    ∃ pre', Before m.delimiter pre' ∧ Visits (extractUploadedFileContent.turn m.delimiter) s
      { parts.foldl Extract.past s with endPart := some (pre' ++ m.closing) } := by
  induction parts generalizing s pre with
  | nil =>
      refine ⟨pre, hpre, ?_⟩
      have hsame : ({ s with endPart := some (pre ++ m.closing) } : Extract) = s :=
        Extract.ext hs.symm rfl rfl rfl rfl rfl
      rw [List.foldl_nil, hsame]
      exact Relation.ReflTransGen.refl
  | cons p parts ih =>
      have hp := hparts p (by simp)
      have hcut : (p :: parts).flatMap (fun p => m.delimiter ++ p.text) ++ m.closing
          = m.delimiter ++ p.text ++
            (parts.flatMap (fun p => m.delimiter ++ p.text) ++ m.closing) := by
        simp [List.flatMap_cons]
      rw [hcut] at hs
      have hturn := hp.turn h.delimiter hpre (delimiter_first m parts) hs
      have hnil : Before m.delimiter [] := Or.inl rfl
      have hrest : ∀ p' ∈ parts, p'.Framed m.delimiter :=
        fun p' hp' => hparts p' (List.mem_cons_of_mem p hp')
      obtain ⟨pre', hpre', hvisits⟩ := @ih { s.past p with
        endPart := some (parts.flatMap (fun p => m.delimiter ++ p.text) ++ m.closing) } []
        hrest hnil rfl
      rw [foldl_past_endPart] at hvisits
      exact ⟨pre', hpre', Relation.ReflTransGen.head hturn hvisits⟩

theorem parts_passed (h : m.Framed) (hstuck : ¬ m.Stuck) {parts : List FormPart}
    (hparts : ∀ p ∈ parts, p.Framed m.delimiter) (hpre : Before m.delimiter pre)
    (hs : s.endPart
      = some (pre ++ (parts.flatMap (fun p => m.delimiter ++ p.text) ++ m.closing))) :
    ∃ r, EndsWith (extractUploadedFileContent.turn m.delimiter) s (.returned r) ∧
      r.fileContent = (parts.foldl Extract.past s).fileContent ∧
      r.lenContent = (parts.foldl Extract.past s).lenContent ∧
      r.query = (parts.foldl Extract.past s).query := by
  obtain ⟨pre', hpre', hvisits⟩ := parts_visited h hparts hpre hs
  obtain ⟨r, hr, hkept⟩ := @closing_returned m
    { parts.foldl Extract.past s with endPart := some (pre' ++ m.closing) } pre' h hstuck hpre' rfl
  exact ⟨r, (hvisits.endsWith_iff _).mpr hr, hkept⟩

theorem parts_stuck (h : m.Framed) (hstuck : m.Stuck) {parts : List FormPart}
    (hparts : ∀ p ∈ parts, p.Framed m.delimiter) (hpre : Before m.delimiter pre)
    (hs : s.endPart
      = some (pre ++ (parts.flatMap (fun p => m.delimiter ++ p.text) ++ m.closing))) :
    ¬ Ends (extractUploadedFileContent.turn m.delimiter) s := by
  obtain ⟨pre', hpre', hvisits⟩ := parts_visited h hparts hpre hs
  rintro ⟨r, hr⟩
  exact closing_stuck h hstuck hpre' rfl ⟨r, (hvisits.endsWith_iff r).mp hr⟩

/-- The first file is what is kept of a body. -/
theorem parts_returned (h : m.WellFormed) (hstuck : ¬ m.Stuck) {parts : List FormPart}
    (hparts : ∀ p ∈ parts, p.WellFormed m.delimiter) (hpre : Before m.delimiter pre)
    (hs : s.endPart
      = some (pre ++ (parts.flatMap (fun p => m.delimiter ++ p.text) ++ m.closing))) :
    ∃ r, EndsWith (extractUploadedFileContent.turn m.delimiter) s (.returned r) ∧
      (r.fileContent, r.lenContent) = s.keeps parts := by
  obtain ⟨r, hr, hfile, hlen, -⟩ :=
    parts_passed h.framed hstuck (fun p hp => (hparts p hp).framed) hpre hs
  refine ⟨r, hr, ?_⟩
  rw [hfile, hlen]
  clear hs hr hfile hlen
  induction parts generalizing s with
  | nil =>
      unfold Extract.keeps
      split_ifs <;> rfl
  | cons p parts ih =>
      rw [List.foldl_cons, ih fun p' hp' => hparts p' (List.mem_cons_of_mem p hp')]
      exact (hparts p List.mem_cons_self).keeps s parts

end Scan

/-- A call has one result. -/
theorem extract_unique {B body : Bytes} {query : Option Bytes} {buf : Bytes} {s : Extract}
    (h : EndsWith (extractUploadedFileContent.turn B) (Extract.start (some body) query buf)
      (.returned s)) (r : Option Bytes × Option ℤ × Option Bytes) :
    extractUploadedFileContent (some B) (some body) query buf r ↔
      r = (s.fileContent, s.lenContent, s.query) := by
  constructor
  · rintro ⟨s', hs', rfl⟩
    obtain rfl : s = s' := ExtractEnd.returned.inj (h.unique hs')
    rfl
  · rintro rfl
    exact ⟨s, h, rfl⟩

/-- The multipart branch of `websSetEnv`: `postData` and `lenPostData` afterwards. The local
`lenUploadedFile` is only used if the call returned a content. -/
def websSetEnvMultipart (postData : Option Bytes) (lenPostData : ℤ)
    (uploaded : Option Bytes × Option ℤ × Option Bytes) : Option Bytes × Option ℤ :=
  match uploaded.1 with
  | none => (postData, some lenPostData)
  | some uploadedFileContent => (some uploadedFileContent, uploaded.2.1)

/-- What an upload should come to. -/
structure ExtractsFirstFile (m : FormBody) (query : Option Bytes) (buf : Bytes) : Prop where
  /-- The call returns the content of the first part with a file, byte for byte, and its length; and
  nothing if there is no such part. -/
  returned : ∃ query', ∀ r, extractUploadedFileContent (some m.delimiter) (some m.text) query buf r ↔
    r = ((m.parts.find? FormPart.hasFilename).map FormPart.content,
      (m.parts.find? FormPart.hasFilename).map (fun p => (p.content.length : ℤ)), query')
  /-- The body of the request is the file then; that of a form without a file stays. -/
  request : ∀ r, extractUploadedFileContent (some m.delimiter) (some m.text) query buf r →
    websSetEnvMultipart (some m.text) m.text.length r =
      match m.parts.find? FormPart.hasFilename with
      | none => (some m.text, some (m.text.length : ℤ))
      | some p => (some p.content, some (p.content.length : ℤ))

/-- What is kept of the parts is what the request has afterwards. -/
theorem extractsFirstFile_of_kept {m : FormBody} {query : Option Bytes} {buf : Bytes} {s : Extract}
    (hs : EndsWith (extractUploadedFileContent.turn m.delimiter) (Extract.start (some m.text) query buf)
      (.returned s))
    (hkept : (s.fileContent, s.lenContent)
      = (Extract.start (some m.text) query buf).keeps m.parts) : ExtractsFirstFile m query buf := by
  unfold Extract.keeps Extract.start at hkept
  constructor
  case returned =>
    refine ⟨s.query, fun r => ?_⟩
    rw [extract_unique hs]
    rcases hfirst : m.parts.find? FormPart.hasFilename with _ | p
    · rw [hfirst] at hkept
      rw [(Prod.mk.inj hkept).1, (Prod.mk.inj hkept).2]
      rfl
    · rw [hfirst] at hkept
      rw [(Prod.mk.inj hkept).1, (Prod.mk.inj hkept).2]
      rfl
  case request =>
    intro r hr
    rw [(extract_unique hs r).mp hr]
    unfold websSetEnvMultipart
    rcases hfirst : m.parts.find? FormPart.hasFilename with _ | p
    · rw [hfirst] at hkept
      rw [(Prod.mk.inj hkept).1]
    · rw [hfirst] at hkept
      rw [(Prod.mk.inj hkept).1, (Prod.mk.inj hkept).2]

/-- **Uploads.** From a well-formed body the call extracts the first file, exactly unless the
scanner gets stuck behind the last delimiter. -/
theorem extract_first_file_iff (m : FormBody) (h : m.WellFormed) (query : Option Bytes) (buf : Bytes) :
    ExtractsFirstFile m query buf ↔ ¬ m.Stuck := by
  constructor
  · rintro ⟨⟨query', hreturned⟩, -⟩ hstuck
    obtain ⟨s, hs, -⟩ := (hreturned _).mpr rfl
    exact parts_stuck h.framed hstuck h.framed.parts h.framed.before rfl ⟨_, hs⟩
  · intro hstuck
    obtain ⟨s, hs, hkept⟩ := parts_returned (s := Extract.start (some m.text) query buf) h hstuck h.parts
      h.framed.before rfl
    exact extractsFirstFile_of_kept hs hkept

/-- A file with a zero byte, a newline and a carriage return in it. -/
def binaryPart : FormPart where
  padding := [32]
  attrs := [{ isFile := false, value := bytes "file" }, { isFile := true, value := bytes "a.bin" }]
  headers := [bytes "Content-Type: application/octet-stream"]
  content := [0, 10, 13, 45, 45]

/-- A field, and behind it the file. -/
def uploadForm : FormBody where
  boundary := bytes "XyZ"
  preamble := some (bytes "ignored")
  parts :=
    [{ attrs := [{ isFile := false, value := bytes "op" }], content := bytes "up" }, binaryPart]
  padding := []
  epilogue := some []

theorem extract_first_file_iff_binary :
    ∃ query', extractUploadedFileContent (some (bytes "--XyZ")) (some uploadForm.text) none []
      (some [0, 10, 13, 45, 45], some 5, query') := by
  have hwf : uploadForm.WellFormed := by decide
  have hstuck : ¬ uploadForm.Stuck := by decide
  obtain ⟨query', h⟩ := ((extract_first_file_iff uploadForm hwf none []).mpr hstuck).returned
  refine ⟨query', (h _).mpr ?_⟩
  have hfirst : uploadForm.parts.find? FormPart.hasFilename = some binaryPart := by
    decide
  rw [hfirst]
  rfl

/-- The same form with a remark behind it. -/
def remarkedForm : FormBody :=
  { uploadForm with epilogue := some (bytes "No Content-Disposition here") }

/-- With the remark the call does not return. -/
theorem remark_never_passed : ¬ ∀ (m : FormBody) (query : Option Bytes) (buf : Bytes),
    m.WellFormed → ExtractsFirstFile m query buf := by
  intro hall
  have hwf : remarkedForm.WellFormed := by decide
  have hstuck : remarkedForm.Stuck := by decide
  obtain ⟨query', hreturned⟩ := (hall remarkedForm none [] hwf).returned
  obtain ⟨s, hs, -⟩ := (hreturned _).mpr rfl
  exact parts_stuck hwf.framed hstuck hwf.framed.parts hwf.framed.before rfl ⟨_, hs⟩

end TestCore.Webs
