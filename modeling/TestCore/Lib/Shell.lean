/-
The command line that `system` hands to the shell.

Of the language only the part is read that needs no quoting and no expansion: words, the
separator `;` and the redirections `>` and `>>`. A line with anything else is not read at all
(`shellTokens` or `simpleCommands` is `none`): a character that is special to the shell where it
stands, an assignment, a reserved word. So a program that puts a foreign string into a line has
to know that the string is plain (`PlainWord`). Then it is part of a word (`shellTokens_word`),
and the line is read as it was meant.

What the line does is modelled for `echo`, which does not write all of its arguments: the words
in front that look like options are not written (`isEchoOption`).
-/
import TestCore.Lib.Decimal

set_option autoImplicit false

namespace TestCore.Lib

/-- The characters that have to be quoted to stand for themselves wherever they are in a word:
the operators, the quotes, the blanks, and what makes a word a pattern. -/
def shellMeta : Bytes := bytes "|&;<>()$`\\\"' \t\n*?["

/-- The characters that are special as the first one of a word: a comment, a home directory. -/
def shellFirst : Bytes := bytes "#~"

/-- A word that stands for itself. -/
def PlainWord (w : Bytes) : Prop :=
  (∀ c ∈ w, c ∉ shellMeta) ∧ ∀ c ∈ w.head?, c ∉ shellFirst

instance (w : Bytes) : Decidable (PlainWord w) := inferInstanceAs (Decidable (_ ∧ _))

/-- The words that are not the name of a command where one could stand. -/
def reservedWords : List Bytes :=
  ["!", "\x7b", "\x7d", "case", "do", "done", "elif", "else", "esac", "fi", "for", "if", "in", "then",
    "until", "while"].map bytes

inductive ShellToken where
  | word (w : Bytes)
  /-- `;` -/
  | semi
  /-- `>` -/
  | great
  /-- `>>` -/
  | dgreat
  deriving DecidableEq, Repr

/-- The word that has been read so far, if there is one. -/
def flushWord (w : Bytes) (ts : List ShellToken) : List ShellToken :=
  if w = [] then ts else .word w :: ts

/-- The tokens of a line, after the characters `w` of a word have been read. Digits right
before a `>` are the number of a descriptor, which is not read here either. -/
def shellTokens (w : Bytes) : Bytes → Option (List ShellToken)
  | [] => some (flushWord w [])
  | 62 :: 62 :: s =>
      if w ≠ [] ∧ w.all isDigit then none
      else (shellTokens [] s).map fun ts => flushWord w (.dgreat :: ts)
  | c :: s =>
      if c = 62 then
        if w ≠ [] ∧ w.all isDigit then none
        else (shellTokens [] s).map fun ts => flushWord w (.great :: ts)
      else if c = 32 ∨ c = 9 then (shellTokens [] s).map (flushWord w)
      else if c = 59 then (shellTokens [] s).map fun ts => flushWord w (.semi :: ts)
      else if c ∈ shellMeta ∨ w = [] ∧ c ∈ shellFirst then none
      else shellTokens (w ++ [c]) s

/-- A command with its arguments, and the files its output goes to: `true` appends. -/
structure SimpleCommand where
  argv : List Bytes := []
  redirects : List (Bytes × Bool) := []
  deriving DecidableEq, Repr

/-- The commands of a line, with what has been read of the one that is open. -/
def simpleCommands (cmd : SimpleCommand) : List ShellToken → Option (List SimpleCommand)
  | [] => some (if cmd.argv = [] ∧ cmd.redirects = [] then [] else [cmd])
  | .word w :: ts =>
      if cmd.argv = [] ∧ (61 ∈ w ∨ w ∈ reservedWords) then none
      else simpleCommands { cmd with argv := cmd.argv ++ [w] } ts
  | .great :: .word f :: ts =>
      simpleCommands { cmd with redirects := cmd.redirects ++ [(f, false)] } ts
  | .dgreat :: .word f :: ts =>
      simpleCommands { cmd with redirects := cmd.redirects ++ [(f, true)] } ts
  | .semi :: ts =>
      -- A separator with nothing before it is a syntax error.
      if cmd.argv = [] ∧ cmd.redirects = [] then none
      else (simpleCommands {} ts).map (cmd :: ·)
  | _ => none

/-- What the shell runs for a line. -/
def shellRuns (line : Bytes) : Option (List SimpleCommand) :=
  (shellTokens [] line).bind (simpleCommands {})

/-! ## What the line writes -/

/-- A word that `echo` takes for options: a minus with some of the letters `n`, `e` and `E`. -/
def isEchoOption : Bytes → Bool
  | 45 :: c :: s => (c :: s).all (· ∈ bytes "neE")
  | _ => false

/-- The options that `echo` finds in front of its arguments: whether it ends the line, and what
is left to write. -/
def echoOptions (newline : Bool) : List Bytes → Bool × List Bytes
  | [] => (newline, [])
  | w :: args =>
      if isEchoOption w then echoOptions (newline && !w.contains 110) args else (newline, w :: args)

/-- The output of `echo`. The words of a line that is read here have no backslash, so that it
does not matter whether escapes are interpreted. -/
def echo (args : List Bytes) : Bytes :=
  let (newline, words) := echoOptions true args
  List.intercalate [32] words ++ if newline then [10] else []

/-- The contents of the files. -/
abbrev Files := Bytes → Bytes

/-- A redirection opens its file, and empties it unless it appends. -/
def Files.opened (fs : Files) (r : Bytes × Bool) : Files :=
  if r.2 then fs else Function.update fs r.1 []

/-- The output of a command goes to the file of its last redirection. -/
def SimpleCommand.write (cmd : SimpleCommand) (out : Bytes) (fs : Files) : Files :=
  let fs := cmd.redirects.foldl Files.opened fs
  match cmd.redirects.getLast? with
  | none => fs
  | some (f, _) => Function.update fs f (fs f ++ out)

/-- The commands of a line, one after the other. Only `echo` is known here. -/
def runEchos : List SimpleCommand → Files → Option Files
  | [], fs => some fs
  | cmd :: cmds, fs =>
      match cmd.argv with
      | name :: args =>
          if name = bytes "echo" then runEchos cmds (cmd.write (echo args) fs) else none
      | [] => none

theorem echo_word {w : Bytes} (hw : isEchoOption w = false) : echo [w] = w ++ [10] := by
  simp [echo, echoOptions, hw]

/-- An option is not written. -/
theorem echo_option {w : Bytes} (hw : isEchoOption w = true) : (echo [w]).length ≤ 1 := by
  simp only [echo, echoOptions, hw, if_true]
  split_ifs
  · simp
  · simp

/-- One `echo` that makes a file and one that appends to it. -/
theorem runEchos_twice (w f : Bytes) (fs : Files) :
    runEchos [⟨[bytes "echo", w], [(f, false)]⟩, ⟨[bytes "echo", w], [(f, true)]⟩] fs
      = some (Function.update fs f (echo [w] ++ echo [w])) := by
  simp [runEchos, SimpleCommand.write, Files.opened]

/-! ## Reading a line piece by piece -/

/-- A plain character goes to the word. -/
theorem shellTokens_cons {c : UInt8} (hc : c ∉ shellMeta) {w : Bytes} (hfirst : w = [] → c ∉ shellFirst)
    (s : Bytes) : shellTokens w (c :: s) = shellTokens (w ++ [c]) s := by
  have hne : ∀ m ∈ shellMeta, c ≠ m := fun m hm heq => hc (heq ▸ hm)
  have hgt : c ≠ 62 := hne 62 (by decide)
  have hblank : ¬ (c = 32 ∨ c = 9) := by
    rintro (h | h)
    · exact hne 32 (by decide) h
    · exact hne 9 (by decide) h
  have hsemi : c ≠ 59 := hne 59 (by decide)
  have hplain : ¬ (c ∈ shellMeta ∨ w = [] ∧ c ∈ shellFirst) := by
    rintro (h | ⟨hw, h⟩)
    · exact hc h
    · exact hfirst hw h
  rw [shellTokens, if_neg hgt, if_neg hblank, if_neg hsemi, if_neg hplain]
  rintro s' rfl
  exact absurd rfl hgt

/-- **A plain word stays together.** -/
theorem shellTokens_word {p : Bytes} (hp : PlainWord p) (s : Bytes) :
    shellTokens [] (p ++ s) = shellTokens p s := by
  -- Behind the first character the ones that are special in front do not matter.
  have hrest : ∀ (q w : Bytes), w ≠ [] → (∀ c ∈ q, c ∉ shellMeta) →
      shellTokens w (q ++ s) = shellTokens (w ++ q) s := by
    intro q
    induction q with
    | nil =>
        intro w _ _
        rw [List.nil_append, List.append_nil]
    | cons c q ih =>
        intro w hw hq
        rw [List.cons_append, shellTokens_cons (hq c List.mem_cons_self) (fun h => absurd h hw),
          ih (w ++ [c]) (by simp) fun x hx => hq x (List.mem_cons_of_mem c hx), List.append_assoc,
          List.singleton_append]
  obtain ⟨hmeta, hfirst⟩ := hp
  match p with
  | [] => rfl
  | c :: q =>
      rw [List.cons_append, shellTokens_cons (hmeta c List.mem_cons_self) fun _ => hfirst c rfl]
      exact hrest q [c] (by simp) fun x hx => hmeta x (List.mem_cons_of_mem c hx)

/-- A blank ends the word. -/
theorem shellTokens_blank (w s : Bytes) :
    shellTokens w (32 :: s) = (shellTokens [] s).map (flushWord w) := by
  simp [shellTokens]

theorem shellTokens_semi (w s : Bytes) :
    shellTokens w (59 :: s) = (shellTokens [] s).map fun ts => flushWord w (.semi :: ts) := by
  simp [shellTokens]

/-- A redirection that stands by itself. -/
theorem shellTokens_great (s : Bytes) :
    shellTokens [] (62 :: 32 :: s) = (shellTokens [] s).map (.great :: ·) := by
  simp [shellTokens, flushWord]
  rfl

theorem shellTokens_dgreat (s : Bytes) :
    shellTokens [] (62 :: 62 :: s) = (shellTokens [] s).map (.dgreat :: ·) := by
  simp [shellTokens, flushWord]

end TestCore.Lib
