/-
The records of a configuration file, as `jrd_file_get_one_json` of `form.c` reads them.

A record goes up to a `;`, and with it the rest of its line. Blanks and line ends do not belong to
it, and neither do comments, from `//` to the end of a line. To find these the reader looks back one
character, and it goes on behind every slash before it has put it to the buffer: a slash that does
not begin a comment is lost.

`RecordText` and `ConfFile` say what a file looks like and which texts are in it, without regard to
how it is read. `fileRecords` finds the records in any file, as `ConfFile` has them where the file is
written as it should be (`ConfFile.fileRecords_eq`).
-/
import TestCore.Lib.CString

set_option autoImplicit false

namespace TestCore.Webs

open TestCore.Lib

/-! ## The reader -/

/-- A file that is read: the bytes that are left, and `feof`. -/
structure FILE where
  rest : Bytes
  feof : Bool
  deriving DecidableEq, Repr

/-- The variables of `jrd_file_get_one_json`; `string_len` is the length of `buffer`. -/
structure OneJson where
  rtnval_pre : UInt8
  buffer : Bytes
  is_one_json_finish : Bool
  is_comment_line : Bool
  deriving DecidableEq, Repr

/-- What a call returns, the string in the buffer, and the file. -/
structure JsonRead where
  rtn : ℤ
  buffer : Bytes
  fp : FILE
  deriving DecidableEq, Repr

/-- The return behind the loop. -/
def OneJson.done (s : OneJson) (fp : FILE) : JsonRead := ⟨s.buffer.length, s.buffer, fp⟩

/-- The loop of `jrd_file_get_one_json`. -/
def jrd_file_get_one_json.loop (max_len : ℕ) : OneJson → Bytes → JsonRead
  | s, [] =>
      -- `fgetc` gives `EOF`, and `feof` holds from now on.
      if s.buffer = [] then ⟨-1, [], ⟨[], true⟩⟩ else s.done ⟨[], true⟩
  | s, rtnval :: rest =>
      if rtnval = 47 then
        if s.rtnval_pre = 47 then
          jrd_file_get_one_json.loop max_len { s with is_comment_line := true } rest
        else jrd_file_get_one_json.loop max_len { s with rtnval_pre := 47 } rest
      else
        let s := { s with rtnval_pre := rtnval }
        if rtnval = 10 then
          if s.is_one_json_finish then s.done ⟨rest, false⟩
          else jrd_file_get_one_json.loop max_len { s with is_comment_line := false } rest
        else if rtnval = 32 ∨ rtnval = 13 then jrd_file_get_one_json.loop max_len s rest
        else if s.is_comment_line then jrd_file_get_one_json.loop max_len s rest
        else
          let s := if rtnval = 59 then { s with is_one_json_finish := true } else s
          if s.is_one_json_finish then jrd_file_get_one_json.loop max_len s rest
          else
            let s := { s with buffer := s.buffer ++ [rtnval] }
            if s.buffer.length + 1 = max_len then s.done ⟨rest, false⟩
            else jrd_file_get_one_json.loop max_len s rest

/-- `jrd_file_get_one_json`. -/
def jrd_file_get_one_json (fp : FILE) (max_len : ℕ) : JsonRead :=
  if fp.feof then ⟨0, [], fp⟩ else jrd_file_get_one_json.loop max_len ⟨0, [], false, false⟩ fp.rest

/-! ## What a file looks like -/

/-- The bytes of a record up to its `;`, and its text: all that is no blank, no line end and in no
comment. A slash stands alone, as two of them begin a comment. -/
inductive RecordText : Bytes → Bytes → Prop
  | nil : RecordText [] []
  | char {c : UInt8} {raw text : Bytes} : c ∉ [47, 59, 32, 13, 10] → RecordText raw text →
      RecordText (c :: raw) (c :: text)
  | blank {c : UInt8} {raw text : Bytes} : c ∈ [32, 13, 10] → RecordText raw text →
      RecordText (c :: raw) text
  | slash {raw text : Bytes} : raw.head? ≠ some 47 → RecordText raw text →
      RecordText (47 :: raw) (47 :: text)
  | comment {note raw text : Bytes} : 10 ∉ note → RecordText raw text →
      RecordText (47 :: 47 :: note ++ 10 :: raw) text

/-- A comment, up to the end of the line or of the file. -/
def Comment (raw : Bytes) : Prop := raw = [] ∨ ∃ note, raw = 47 :: 47 :: note ∧ 10 ∉ note

/-- What may stand between a `;` and the end of its line. -/
def LineEnd (raw : Bytes) : Prop :=
  ∃ blanks note, raw = blanks ++ note ∧ (∀ c ∈ blanks, c = 32 ∨ c = 13) ∧ Comment note

/-- A file of records, each ended by `;` and a newline, and the texts in it. Behind the last record
there may be blanks and comments. -/
inductive ConfFile : Bytes → List Bytes → Prop
  | nil {raw note : Bytes} : RecordText raw [] → Comment note → ConfFile (raw ++ note) []
  | record {raw text tail rest : Bytes} {texts : List Bytes} : RecordText raw text → LineEnd tail →
      ConfFile rest texts → ConfFile (raw ++ 59 :: (tail ++ 10 :: rest)) (text :: texts)

/-- Where in a file a byte stands. -/
inductive Place where
  | record
  | comment
  /-- Between a `;` and the end of its line. -/
  | tail
  deriving DecidableEq, Repr

/-- The texts in a file from some place on. The last one has no `;`. -/
def fileTexts : Place → Bytes → List Bytes
  | _, [] => [[]]
  | .record, 47 :: 47 :: file => fileTexts .comment file
  | .record, c :: file =>
      if c = 59 then fileTexts .tail file
      else if c ∈ [32, 13, 10] then fileTexts .record file
      else (fileTexts .record file).modifyHead (c :: ·)
  | .comment, c :: file => fileTexts (if c = 10 then .record else .comment) file
  | .tail, c :: file => if c = 10 then [] :: fileTexts .record file else fileTexts .tail file

/-- The records of a file: its texts that are not empty. -/
def fileRecords (file : Bytes) : List Bytes := (fileTexts .record file).filter (· ≠ [])

/-- Calls one after the other return the texts and their lengths, and then something negative. -/
def ReadsRecords (max_len : ℕ) : FILE → List Bytes → Prop
  | fp, [] => (jrd_file_get_one_json fp max_len).rtn < 0
  | fp, text :: texts =>
      let read := jrd_file_get_one_json fp max_len
      read.rtn = text.length ∧ read.buffer = text ∧ ReadsRecords max_len read.fp texts

/-! ## Reading a record -/

/-- What is kept of a text. -/
def kept (text : Bytes) : Bytes := text.filter (· ≠ 47)

section Loop

variable {max_len : ℕ}

/-- A slash. -/
theorem loop_slash_eq (s : OneJson) (rest : Bytes) :
    jrd_file_get_one_json.loop max_len s (47 :: rest) =
      if s.rtnval_pre = 47 then
        jrd_file_get_one_json.loop max_len { s with is_comment_line := true } rest
      else jrd_file_get_one_json.loop max_len { s with rtnval_pre := 47 } rest := by
  rw [jrd_file_get_one_json.loop, if_pos rfl]

/-- Any other byte. The lemmas on the single cases go on from here. -/
theorem loop_other {c : UInt8} (hslash : c ≠ 47) (s : OneJson) (rest : Bytes) :
    jrd_file_get_one_json.loop max_len s (c :: rest) =
      let s := { s with rtnval_pre := c }
      if c = 10 then
        if s.is_one_json_finish then s.done ⟨rest, false⟩
        else jrd_file_get_one_json.loop max_len { s with is_comment_line := false } rest
      else if c = 32 ∨ c = 13 then jrd_file_get_one_json.loop max_len s rest
      else if s.is_comment_line then jrd_file_get_one_json.loop max_len s rest
      else
        let s := if c = 59 then { s with is_one_json_finish := true } else s
        if s.is_one_json_finish then jrd_file_get_one_json.loop max_len s rest
        else
          let s := { s with buffer := s.buffer ++ [c] }
          if s.buffer.length + 1 = max_len then s.done ⟨rest, false⟩
          else jrd_file_get_one_json.loop max_len s rest := by
  rw [jrd_file_get_one_json.loop, if_neg hslash]

theorem loop_slash {s : OneJson} (h : s.rtnval_pre ≠ 47) (rest : Bytes) :
    jrd_file_get_one_json.loop max_len s (47 :: rest)
      = jrd_file_get_one_json.loop max_len { s with rtnval_pre := 47 } rest := by
  rw [loop_slash_eq, if_neg h]

theorem loop_slash_again {s : OneJson} (h : s.rtnval_pre = 47) (rest : Bytes) :
    jrd_file_get_one_json.loop max_len s (47 :: rest)
      = jrd_file_get_one_json.loop max_len { s with is_comment_line := true } rest := by
  rw [loop_slash_eq, if_pos h]

/-- Bytes that are passed over: blanks, and what is in a comment. -/
theorem loop_passed {s : OneJson} {c : UInt8} (hslash : c ≠ 47) (hline : c ≠ 10)
    (h : s.is_comment_line = true ∨ c = 32 ∨ c = 13) (rest : Bytes) :
    jrd_file_get_one_json.loop max_len s (c :: rest)
      = jrd_file_get_one_json.loop max_len { s with rtnval_pre := c } rest := by
  rw [loop_other hslash]
  dsimp only
  rw [if_neg hline]
  by_cases hblank : c = 32 ∨ c = 13
  · rw [if_pos hblank]
  · rw [if_neg hblank, if_pos (h.resolve_right hblank)]

theorem loop_newline {s : OneJson} (h : s.is_one_json_finish = false) (rest : Bytes) :
    jrd_file_get_one_json.loop max_len s (10 :: rest)
      = jrd_file_get_one_json.loop max_len { s with rtnval_pre := 10, is_comment_line := false } rest := by
  have hslash : ¬ (10 : UInt8) = 47 := by decide
  rw [loop_other hslash]
  dsimp only
  rw [if_pos rfl, h, if_neg Bool.false_ne_true]

/-- The end of a record's line. -/
theorem loop_line_end {s : OneJson} (h : s.is_one_json_finish = true) (rest : Bytes) :
    jrd_file_get_one_json.loop max_len s (10 :: rest) = s.done ⟨rest, false⟩ := by
  have hslash : ¬ (10 : UInt8) = 47 := by decide
  rw [loop_other hslash]
  dsimp only
  rw [if_pos rfl, if_pos h]
  rfl

theorem loop_semicolon {s : OneJson} (h : s.is_comment_line = false) (rest : Bytes) :
    jrd_file_get_one_json.loop max_len s (59 :: rest)
      = jrd_file_get_one_json.loop max_len { s with rtnval_pre := 59, is_one_json_finish := true } rest := by
  rw [loop_other (by decide)]
  simp [h]

/-- A byte that is kept. -/
theorem loop_char {s : OneJson} {c : UInt8} (hc : c ∉ [47, 59, 32, 13, 10])
    (hcomment : s.is_comment_line = false) (hfinish : s.is_one_json_finish = false)
    (hroom : s.buffer.length + 2 ≠ max_len) (rest : Bytes) :
    jrd_file_get_one_json.loop max_len s (c :: rest)
      = jrd_file_get_one_json.loop max_len { s with rtnval_pre := c, buffer := s.buffer ++ [c] } rest := by
  simp only [List.mem_cons, List.not_mem_nil, or_false, not_or] at hc
  obtain ⟨hslash, hsemi, hblank, hcr, hline⟩ := hc
  have hfull : ¬ (s.buffer ++ [c]).length + 1 = max_len := by
    rw [List.length_append, List.length_singleton]
    omega
  rw [loop_other hslash]
  simp only [if_neg hline, hblank, hcr, or_self, if_false, hcomment, Bool.false_eq_true,
    if_neg hsemi, hfinish, if_neg hfull]

/-- The last byte for which there is room. -/
theorem loop_char_full {s : OneJson} {c : UInt8} (hc : c ∉ [47, 59, 32, 13, 10])
    (hcomment : s.is_comment_line = false) (hfinish : s.is_one_json_finish = false)
    (hroom : s.buffer.length + 2 = max_len) (rest : Bytes) :
    jrd_file_get_one_json.loop max_len s (c :: rest)
      = ⟨(s.buffer ++ [c]).length, s.buffer ++ [c], ⟨rest, false⟩⟩ := by
  simp only [List.mem_cons, List.not_mem_nil, or_false, not_or] at hc
  obtain ⟨hslash, hsemi, hblank, hcr, hline⟩ := hc
  have hfull : (s.buffer ++ [c]).length + 1 = max_len := by
    rw [List.length_append, List.length_singleton]
    omega
  rw [loop_other hslash]
  simp only [if_neg hline, hblank, hcr, or_self, if_false, hcomment, Bool.false_eq_true,
    if_neg hsemi, hfinish, if_pos hfull]
  rfl

/-- Within a comment, and between a `;` and the end of its line, a byte is passed over. -/
theorem loop_ignored {s : OneJson} {c : UInt8} (hline : c ≠ 10)
    (h : s.is_comment_line = true ∨ s.is_one_json_finish = true) (rest : Bytes) :
    ∃ s' : OneJson, s'.buffer = s.buffer ∧ s'.is_one_json_finish = s.is_one_json_finish ∧
      (s.is_comment_line = true → s'.is_comment_line = true) ∧
      jrd_file_get_one_json.loop max_len s (c :: rest) = jrd_file_get_one_json.loop max_len s' rest := by
  by_cases hslash : c = 47
  · subst hslash
    by_cases hpre : s.rtnval_pre = 47
    · exact ⟨{ s with is_comment_line := true }, rfl, rfl, fun _ => rfl, loop_slash_again hpre rest⟩
    · exact ⟨{ s with rtnval_pre := 47 }, rfl, rfl, fun hs => hs, loop_slash hpre rest⟩
  by_cases hpassed : s.is_comment_line = true ∨ c = 32 ∨ c = 13
  · exact ⟨{ s with rtnval_pre := c }, rfl, rfl, fun hs => hs, loop_passed hslash hline hpassed rest⟩
  · have hblank : ¬ (c = 32 ∨ c = 13) := fun hc => hpassed (Or.inr hc)
    have hcomment : s.is_comment_line = false := by simpa using fun hs => hpassed (Or.inl hs)
    have hfinish : s.is_one_json_finish = true := by simpa [hcomment] using h
    refine ⟨{ s with rtnval_pre := c }, rfl, rfl, fun hs => hs, ?_⟩
    rw [loop_other hslash]
    simp only [if_neg hline, if_neg hblank, hcomment, Bool.false_eq_true, hfinish, ite_self,
      if_true]

/-- Two slashes begin a comment, whatever was before them. -/
theorem loop_slashes (s : OneJson) (rest : Bytes) :
    jrd_file_get_one_json.loop max_len s (47 :: 47 :: rest)
      = jrd_file_get_one_json.loop max_len { s with rtnval_pre := 47, is_comment_line := true } rest := by
  by_cases h : s.rtnval_pre = 47
  · obtain ⟨pre, buffer, finish, comment⟩ := s
    obtain rfl : pre = 47 := h
    rw [loop_slash_again rfl, loop_slash_again rfl]
  · rw [loop_slash h, loop_slash_again rfl]

/-- Nothing is kept of a comment. -/
theorem loop_note (max_len : ℕ) {note : Bytes} (h : 10 ∉ note) {s : OneJson} (hs : s.is_comment_line = true)
    (rest : Bytes) :
    ∃ pre, jrd_file_get_one_json.loop max_len s (note ++ rest)
      = jrd_file_get_one_json.loop max_len { s with rtnval_pre := pre } rest := by
  induction note generalizing s with
  | nil => exact ⟨s.rtnval_pre, rfl⟩
  | cons c note ih =>
      have hc : c ≠ 10 := by
        rintro rfl
        exact h List.mem_cons_self
      have hnote : 10 ∉ note := fun hmem => h (List.mem_cons_of_mem c hmem)
      rw [List.cons_append]
      by_cases hslash : c = 47
      · subst hslash
        by_cases hpre : s.rtnval_pre = 47
        · obtain ⟨pre, hrest⟩ := ih hnote (s := { s with is_comment_line := true }) rfl
          refine ⟨pre, ?_⟩
          rw [loop_slash_again hpre, hrest, ← hs]
        · obtain ⟨pre, hrest⟩ := ih hnote (s := { s with rtnval_pre := 47 }) hs
          exact ⟨pre, by rw [loop_slash hpre, hrest]⟩
      · obtain ⟨pre, hrest⟩ := ih hnote (s := { s with rtnval_pre := c }) hs
        exact ⟨pre, by rw [loop_passed hslash hc (Or.inl hs), hrest]⟩

/-- **The bytes of a record** up to its `;` put what is kept of the text to the buffer. -/
theorem loop_record (max_len : ℕ) {raw text : Bytes} (h : RecordText raw text) {s : OneJson}
    (hcomment : s.is_comment_line = false) (hfinish : s.is_one_json_finish = false)
    (hpre : s.rtnval_pre = 47 → raw.head? ≠ some 47)
    (hroom : kept text ≠ [] → s.buffer.length + (kept text).length + 1 < max_len) (rest : Bytes) :
    ∃ pre, jrd_file_get_one_json.loop max_len s (raw ++ rest)
      = jrd_file_get_one_json.loop max_len
          { s with rtnval_pre := pre, buffer := s.buffer ++ kept text } rest := by
  induction h generalizing s with
  | nil =>
      refine ⟨s.rtnval_pre, ?_⟩
      rw [List.nil_append]
      unfold kept
      rw [List.filter_nil, List.append_nil]
  | @char c raw text hc _ ih =>
      have hslash : c ≠ 47 := by
        rintro rfl
        exact hc List.mem_cons_self
      have hkept : kept (c :: text) = c :: kept text := List.filter_cons_of_pos (by simpa using hslash)
      have hroom := hroom (hkept ▸ List.cons_ne_nil c (kept text))
      rw [hkept, List.length_cons] at hroom
      obtain ⟨pre, hrest⟩ := ih (s := { s with rtnval_pre := c, buffer := s.buffer ++ [c] }) hcomment
        hfinish (fun h => absurd h hslash)
        (fun _ => by rw [List.length_append, List.length_singleton]; omega)
      refine ⟨pre, ?_⟩
      rw [List.cons_append, loop_char hc hcomment hfinish (by omega), hrest, hkept]
      simp only [List.append_assoc, List.singleton_append]
  | @blank c raw text hc _ ih =>
      have hslash : c ≠ 47 := by
        rintro rfl
        exact absurd hc (by decide)
      obtain ⟨pre, hrest⟩ := ih (s := { s with rtnval_pre := c }) hcomment hfinish
        (fun h => absurd h hslash) hroom
      refine ⟨pre, ?_⟩
      rw [List.cons_append]
      by_cases hline : c = 10
      · subst hline
        rw [loop_newline hfinish, ← hcomment, hrest]
      · have hblank : c = 32 ∨ c = 13 := by
          simp only [List.mem_cons, List.not_mem_nil, or_false] at hc
          tauto
        rw [loop_passed hslash hline (Or.inr hblank), hrest]
  | @slash raw text hhead _ ih =>
      have hslash : s.rtnval_pre ≠ 47 := fun h => hpre h rfl
      have hkept : kept (47 :: text) = kept text := List.filter_cons_of_neg (by simp)
      rw [hkept] at hroom ⊢
      obtain ⟨pre, hrest⟩ := ih (s := { s with rtnval_pre := 47 }) hcomment hfinish (fun _ => hhead) hroom
      exact ⟨pre, by rw [List.cons_append, loop_slash hslash, hrest]⟩
  | @comment note raw text hnote _ ih =>
      obtain ⟨before, buffer, finish, comment⟩ := s
      obtain rfl : finish = false := hfinish
      obtain rfl : comment = false := hcomment
      have hline : ¬ (10 : UInt8) = 47 := by decide
      obtain ⟨pre, hskip⟩ := loop_note max_len hnote (s := ⟨47, buffer, false, true⟩) rfl
        (10 :: (raw ++ rest))
      obtain ⟨pre', hrest⟩ := ih (s := ⟨10, buffer, false, false⟩) rfl rfl (fun h => absurd h hline) hroom
      refine ⟨pre', ?_⟩
      simp only [List.cons_append, List.append_assoc]
      rw [loop_slashes]
      dsimp only at hskip ⊢
      rw [hskip, loop_newline rfl]
      exact hrest

/-- Nothing is kept between a `;` and the end of its line. -/
theorem loop_blanks (max_len : ℕ) {blanks : Bytes} (h : ∀ c ∈ blanks, c = 32 ∨ c = 13) (s : OneJson)
    (rest : Bytes) :
    ∃ pre, jrd_file_get_one_json.loop max_len s (blanks ++ rest)
      = jrd_file_get_one_json.loop max_len { s with rtnval_pre := pre } rest := by
  induction blanks generalizing s with
  | nil => exact ⟨s.rtnval_pre, rfl⟩
  | cons c blanks ih =>
      obtain ⟨hc, hblanks⟩ := List.forall_mem_cons.mp h
      have hslash : c ≠ 47 := by
        rintro rfl
        exact absurd hc (by decide)
      have hline : c ≠ 10 := by
        rintro rfl
        exact absurd hc (by decide)
      obtain ⟨pre, hrest⟩ := ih hblanks { s with rtnval_pre := c }
      exact ⟨pre, by rw [List.cons_append, loop_passed hslash hline (Or.inr hc), hrest]⟩

theorem loop_comment (max_len : ℕ) {note : Bytes} (h : Comment note) (s : OneJson) (rest : Bytes) :
    ∃ pre comment, jrd_file_get_one_json.loop max_len s (note ++ rest)
      = jrd_file_get_one_json.loop max_len
          { s with rtnval_pre := pre, is_comment_line := comment } rest := by
  rcases h with rfl | ⟨note, rfl, hnote⟩
  · exact ⟨s.rtnval_pre, s.is_comment_line, rfl⟩
  · obtain ⟨pre, hskip⟩ := loop_note max_len hnote
      (s := { s with rtnval_pre := 47, is_comment_line := true }) rfl rest
    exact ⟨pre, true, by rw [List.cons_append, List.cons_append, loop_slashes, hskip]⟩

end Loop

/-! ## Reading a file -/

/-- **One record.** A call returns what is kept of the text, and the next one starts with the next
line. -/
theorem read_record {raw text tail : Bytes} (h : RecordText raw text) (htail : LineEnd tail)
    {max_len : ℕ} (hroom : (kept text).length + 1 < max_len) (rest : Bytes) :
    jrd_file_get_one_json ⟨raw ++ 59 :: (tail ++ 10 :: rest), false⟩ max_len
      = ⟨(kept text).length, kept text, ⟨rest, false⟩⟩ := by
  obtain ⟨blanks, note, rfl, hblanks, hnote⟩ := htail
  have hroom' : kept text ≠ [] → ([] : Bytes).length + (kept text).length + 1 < max_len := by
    intro _
    rw [List.length_nil]
    omega
  obtain ⟨pre₁, hraw⟩ := loop_record max_len h (s := ⟨0, [], false, false⟩) rfl rfl
    (fun h => absurd h (by decide))
    hroom' (59 :: (blanks ++ note ++ 10 :: rest))
  obtain ⟨pre₂, hskip⟩ := loop_blanks max_len hblanks
    ⟨59, [] ++ kept text, true, false⟩ (note ++ 10 :: rest)
  obtain ⟨pre₃, comment, hend⟩ := loop_comment max_len hnote
    ⟨pre₂, [] ++ kept text, true, false⟩ (10 :: rest)
  unfold jrd_file_get_one_json
  rw [if_neg Bool.false_ne_true]
  dsimp only at hraw hskip hend ⊢
  rw [hraw, loop_semicolon rfl, List.append_assoc, hskip, hend, loop_line_end rfl]
  rfl

/-- **Behind the last record** a call returns -1. -/
theorem read_end {raw note : Bytes} (h : RecordText raw []) (hnote : Comment note) (max_len : ℕ) :
    jrd_file_get_one_json ⟨raw ++ note, false⟩ max_len = ⟨-1, [], ⟨[], true⟩⟩ := by
  obtain ⟨pre₁, hraw⟩ := loop_record max_len h (s := ⟨0, [], false, false⟩) rfl rfl
    (fun h => absurd h (by decide)) (fun h => absurd rfl h) note
  obtain ⟨pre₂, comment, hend⟩ := loop_comment max_len hnote ⟨pre₁, [] ++ kept [], false, false⟩ []
  unfold jrd_file_get_one_json
  rw [if_neg Bool.false_ne_true]
  dsimp only at hraw hend ⊢
  rw [List.append_nil] at hend
  rw [hraw, hend]
  rfl

theorem kept_eq_self_iff (text : Bytes) : kept text = text ↔ 47 ∉ text := by
  unfold kept
  rw [List.filter_eq_self]
  constructor
  · intro h hmem
    exact absurd (h 47 hmem) (by decide)
  · intro h c hc
    exact decide_eq_true (ne_of_mem_of_not_mem hc h)

/-- **The reader.** The texts of a file are read as they are exactly if there is no slash in them. -/
theorem reads_records_iff {file : Bytes} {texts : List Bytes} (h : ConfFile file texts) (max_len : ℕ)
    (hroom : ∀ text ∈ texts, text.length + 1 < max_len) :
    ReadsRecords max_len ⟨file, false⟩ texts ↔ ∀ text ∈ texts, 47 ∉ text := by
  induction h with
  | nil hraw hnote =>
      unfold ReadsRecords
      rw [read_end hraw hnote]
      exact iff_of_true (by decide) (fun text ht => absurd ht List.not_mem_nil)
  | @record raw text tail rest texts hraw htail _ ih =>
      obtain ⟨htext, htexts⟩ := List.forall_mem_cons.mp hroom
      have hle : (kept text).length ≤ text.length := List.length_filter_le _ _
      have hread := read_record hraw htail (by omega : (kept text).length + 1 < max_len) rest
      unfold ReadsRecords
      rw [List.forall_mem_cons, ← ih htexts, ← kept_eq_self_iff, hread]
      dsimp only
      constructor
      · rintro ⟨-, hbuffer, hrest⟩
        exact ⟨hbuffer, hrest⟩
      · rintro ⟨hbuffer, hrest⟩
        exact ⟨by rw [hbuffer], hbuffer, hrest⟩

theorem recordText_chars {text : Bytes} (h : ∀ c ∈ text, c ∉ [47, 59, 32, 13, 10]) :
    RecordText text text := by
  induction text with
  | nil => exact RecordText.nil
  | cons c text ih =>
      obtain ⟨hc, htext⟩ := List.forall_mem_cons.mp h
      exact RecordText.char hc (ih htext)

/-- The file `[1];//x`, with a newline. -/
theorem reads_records_one :
    ReadsRecords 768 ⟨[91, 49, 93, 59, 47, 47, 120, 10], false⟩ [[91, 49, 93]] ↔
      ∀ text ∈ ([[91, 49, 93]] : List Bytes), 47 ∉ text := by
  have hraw : RecordText [91, 49, 93] [91, 49, 93] := recordText_chars (by decide)
  have hfile : ConfFile [91, 49, 93, 59, 47, 47, 120, 10] [[91, 49, 93]] :=
    ConfFile.record hraw ⟨[], [47, 47, 120], rfl, by simp, Or.inr ⟨[120], rfl, by decide⟩⟩
      (@ConfFile.nil [] [] RecordText.nil (Or.inl rfl))
  exact reads_records_iff hfile 768 (by simp)

/-- The record `a/b`. -/
theorem slash_lost :
    ¬ ∀ (file : Bytes) (texts : List Bytes), ConfFile file texts → ∀ max_len,
      (∀ text ∈ texts, text.length + 1 < max_len) → ReadsRecords max_len ⟨file, false⟩ texts := by
  intro hall
  have hraw : RecordText [97, 47, 98] [97, 47, 98] :=
    RecordText.char (by decide) (RecordText.slash (by simp) (RecordText.char (by decide) RecordText.nil))
  have hfile : ConfFile [97, 47, 98, 59, 10] [[97, 47, 98]] :=
    ConfFile.record hraw ⟨[], [], rfl, by simp, Or.inl rfl⟩
      (@ConfFile.nil [] [] RecordText.nil (Or.inl rfl))
  obtain ⟨hlen, -⟩ := hall _ _ hfile 768 (by simp)
  exact absurd hlen (by decide)

/-! ## The records of a file -/

section Texts

variable {c : UInt8} {file : Bytes}

theorem fileTexts_ne_nil (place : Place) (file : Bytes) : fileTexts place file ≠ [] := by
  fun_induction fileTexts place file with
  | case1 => exact List.cons_ne_nil _ _
  | case2 _ ih => exact ih
  | case3 _ _ ih => exact ih
  | case4 _ _ _ _ _ ih => exact ih
  | case5 _ _ _ _ _ ih =>
      rw [Ne, List.modifyHead_eq_nil_iff]
      exact ih
  | case6 _ _ ih => exact ih
  | case7 => exact List.cons_ne_nil _ _
  | case8 _ _ _ ih => exact ih

theorem fileTexts_slashes (file : Bytes) :
    fileTexts .record (47 :: 47 :: file) = fileTexts .comment file := by
  rw [fileTexts]

theorem fileTexts_char (h : c = 47 → file.head? ≠ some 47) : fileTexts .record (c :: file) =
    if c = 59 then fileTexts .tail file
    else if c ∈ [32, 13, 10] then fileTexts .record file
    else (fileTexts .record file).modifyHead (c :: ·) := by
  rw [fileTexts]
  rintro rest rfl rfl
  exact h rfl rfl

/-- A comment goes up to the end of its line. -/
theorem fileTexts_comment {note : Bytes} (h : 10 ∉ note) (file : Bytes) :
    fileTexts .comment (note ++ 10 :: file) = fileTexts .record file ∧ fileTexts .comment note = [[]] := by
  induction note with
  | nil => exact ⟨by rw [List.nil_append, fileTexts, if_pos rfl], by rw [fileTexts]⟩
  | cons c note ih =>
      obtain ⟨hc, hnote⟩ := not_or.mp (mt List.mem_cons.mpr h)
      obtain ⟨hline, hend⟩ := ih hnote
      rw [List.cons_append, fileTexts, fileTexts, if_neg (Ne.symm hc)]
      exact ⟨hline, hend⟩

/-- So does what stands behind a `;`. -/
theorem fileTexts_tail {tail : Bytes} (h : 10 ∉ tail) (file : Bytes) :
    fileTexts .tail (tail ++ 10 :: file) = [] :: fileTexts .record file := by
  induction tail with
  | nil => rw [List.nil_append, fileTexts, if_pos rfl]
  | cons c tail ih =>
      obtain ⟨hc, htail⟩ := not_or.mp (mt List.mem_cons.mpr h)
      rw [List.cons_append, fileTexts, if_neg (Ne.symm hc)]
      exact ih htail

theorem LineEnd.no_newline {raw : Bytes} (h : LineEnd raw) : 10 ∉ raw := by
  obtain ⟨blanks, note, rfl, hblanks, hnote⟩ := h
  rw [List.mem_append, not_or]
  constructor
  · intro hmem
    exact absurd (hblanks 10 hmem) (by decide)
  · rcases hnote with rfl | ⟨note, rfl, hnote⟩
    · exact List.not_mem_nil
    · simpa using hnote

/-- The bytes of a record put its text to the front. -/
theorem RecordText.fileTexts_append {raw text : Bytes} (h : RecordText raw text)
    (hfile : text ≠ [] → file.head? ≠ some 47) :
    fileTexts .record (raw ++ file) = (fileTexts .record file).modifyHead (text ++ ·) := by
  obtain ⟨first, texts, hcons⟩ := List.exists_cons_of_ne_nil (fileTexts_ne_nil .record file)
  rw [hcons]
  induction h with
  | nil => exact hcons
  | @char c raw text hc _ ih =>
      have hsemi : c ≠ 59 := by
        rintro rfl
        exact hc (by decide)
      have hblank : c ∉ [32, 13, 10] := fun hmem => hc (by simp at hmem ⊢; tauto)
      have hslash : c ≠ 47 := by
        rintro rfl
        exact hc List.mem_cons_self
      rw [List.cons_append, fileTexts_char (fun h => absurd h hslash), if_neg hsemi, if_neg hblank,
        ih fun _ => hfile (List.cons_ne_nil c text)]
      rfl
  | @blank c raw text hc _ ih =>
      have hsemi : c ≠ 59 := by
        rintro rfl
        exact absurd hc (by decide)
      have hslash : c ≠ 47 := by
        rintro rfl
        exact absurd hc (by decide)
      rw [List.cons_append, fileTexts_char (fun h => absurd h hslash), if_neg hsemi, if_pos hc]
      exact ih hfile
  | @slash raw text hhead _ ih =>
      have hnext : (raw ++ file).head? ≠ some 47 := by
        rcases raw with _ | ⟨c, raw⟩
        · exact hfile (List.cons_ne_nil 47 text)
        · exact hhead
      rw [List.cons_append, fileTexts_char (fun _ => hnext), if_neg (by decide), if_neg (by decide),
        ih fun _ => hfile (List.cons_ne_nil 47 text)]
      rfl
  | @comment note raw text hnote _ ih =>
      rw [List.append_assoc, List.cons_append, List.cons_append, fileTexts_slashes, List.cons_append,
        (fileTexts_comment hnote _).1]
      exact ih hfile

/-- **The records of a file that is written as it should be** are the texts in it. -/
theorem ConfFile.fileRecords_eq {texts : List Bytes} (h : ConfFile file texts) :
    fileRecords file = texts.filter (· ≠ []) := by
  have htexts : fileTexts .record file = texts ++ [[]] := by
    induction h with
    | nil hraw hnote =>
        rw [hraw.fileTexts_append fun h => absurd rfl h]
        rcases hnote with rfl | ⟨note, rfl, hnote⟩
        · rfl
        · rw [fileTexts_slashes, (fileTexts_comment hnote []).2]
          rfl
    | @record raw text tail rest texts hraw htail _ ih =>
        rw [hraw.fileTexts_append fun _ => by simp, fileTexts_char fun h => absurd h (by decide),
          if_pos rfl, fileTexts_tail htail.no_newline, ih]
        simp
  unfold fileRecords
  rw [htexts, List.filter_append]
  simp

end Texts

end TestCore.Webs
