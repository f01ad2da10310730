/-
The Samba password: the command that `webs_set_password` runs once the database has taken the
new password.

The password is put twice into a line for the shell, and the line into 128 bytes. The three
handlers hand the password over as it was submitted, so its length and its characters are the
client's. The main theorem says for which passwords the shell gets the line that was meant, runs
the two `echo` commands, and the file has the password twice.
-/
import TestCore.Lib.Shell
import TestCore.Webs.Credentials

set_option autoImplicit false

namespace TestCore.Webs

open TestCore.Lib

def smbpasswdPath : Bytes := bytes "/jrd-resource/resource/jrdcfg/smbpasswd"

/-- `echo P > F;echo P >> F`. -/
def smbpasswdText (newpasswd : Bytes) : Bytes :=
  bytes "echo " ++ newpasswd ++ bytes " > " ++ smbpasswdPath ++ bytes ";echo " ++ newpasswd
    ++ bytes " >> " ++ smbpasswdPath

/-- What the command should be. -/
structure SambaCommand (cmd newpasswd : Bytes) : Prop where
  /-- It is not cut. -/
  whole : cmd = smbpasswdText newpasswd
  /-- The password has nothing in it that is special to the shell. -/
  plain : PlainWord newpasswd
  /-- The shell runs one `echo` that makes the file and one that appends to it. -/
  runs : shellRuns cmd = some
    [⟨[bytes "echo", newpasswd], [(smbpasswdPath, false)]⟩,
      ⟨[bytes "echo", newpasswd], [(smbpasswdPath, true)]⟩]
  /-- The file has the password twice then, each on a line, and no other file is written. -/
  writes : ∀ fs, (shellRuns cmd).bind (runEchos · fs)
    = some (Function.update fs smbpasswdPath (newpasswd ++ [10] ++ (newpasswd ++ [10])))

/-- Every command that a request makes the server run. -/
def SambaLaw (route : PasswordRoute) (env : PasswordEnv) (d : Pridata) (wp : WebsRec) : Prop :=
  ∀ old new cmd, route.handed env d wp = some (old, new) → (route.handle env d wp).cmd = some cmd →
    SambaCommand cmd new

/-! ## The line -/

theorem smbpasswdText_length (newpasswd : Bytes) :
    (smbpasswdText newpasswd).length = 96 + 2 * newpasswd.length := by
  have hpath : smbpasswdPath.length = 39 := by decide
  have h1 : (bytes "echo ").length = 5 := by decide
  have h2 : (bytes " > ").length = 3 := by decide
  have h3 : (bytes ";echo ").length = 6 := by decide
  have h4 : (bytes " >> ").length = 4 := by decide
  unfold smbpasswdText
  simp only [List.length_append, hpath, h1, h2, h3, h4]
  omega

/-- 128 bytes are enough for two passwords of 15 characters. -/
theorem smbpasswdCmd_eq_iff (newpasswd : Bytes) :
    smbpasswdCmd newpasswd = smbpasswdText newpasswd ↔ newpasswd.length ≤ 15 := by
  have hlen := smbpasswdText_length newpasswd
  have hcmd : smbpasswdCmd newpasswd = (smbpasswdText newpasswd).take 127 := rfl
  rw [hcmd, List.take_eq_self_iff, hlen]
  omega

/-- A line without special characters in the password is read as it was meant. -/
theorem shellRuns_smbpasswdText {newpasswd : Bytes} (hne : newpasswd ≠ [])
    (hplain : PlainWord newpasswd) :
    shellRuns (smbpasswdText newpasswd) = some
      [⟨[bytes "echo", newpasswd], [(smbpasswdPath, false)]⟩,
        ⟨[bytes "echo", newpasswd], [(smbpasswdPath, true)]⟩] := by
  have hecho : PlainWord (bytes "echo") := by decide
  have hpath : PlainWord smbpasswdPath := by decide
  have hname : ¬ ((61 : UInt8) ∈ bytes "echo" ∨ bytes "echo" ∈ reservedWords) := by decide
  have hpathne : smbpasswdPath ≠ [] := by decide
  have hechone : bytes "echo" ≠ [] := by decide
  -- The line cut at its blanks and operators.
  have hline : smbpasswdText newpasswd
      = bytes "echo" ++ 32 :: (newpasswd ++ 32 :: 62 :: 32 :: (smbpasswdPath ++ 59 ::
        (bytes "echo" ++ 32 :: (newpasswd ++ 32 :: 62 :: 62 :: 32 :: (smbpasswdPath ++ []))))) := by
    have h1 : bytes "echo " = bytes "echo" ++ [32] := by decide
    have h2 : bytes " > " = [32, 62, 32] := by decide
    have h3 : bytes ";echo " = 59 :: (bytes "echo" ++ [32]) := by decide
    have h4 : bytes " >> " = [32, 62, 62, 32] := by decide
    unfold smbpasswdText
    rw [h1, h2, h3, h4]
    simp only [List.append_assoc, List.cons_append, List.nil_append, List.append_nil]
  have htokens : shellTokens [] (smbpasswdText newpasswd) = some
      [.word (bytes "echo"), .word newpasswd, .great, .word smbpasswdPath, .semi,
        .word (bytes "echo"), .word newpasswd, .dgreat, .word smbpasswdPath] := by
    rw [hline, shellTokens_word hecho, shellTokens_blank, shellTokens_word hplain, shellTokens_blank,
      shellTokens_great, shellTokens_word hpath, shellTokens_semi, shellTokens_word hecho,
      shellTokens_blank, shellTokens_word hplain, shellTokens_blank, shellTokens_dgreat,
      shellTokens_blank, shellTokens_word hpath]
    simp [shellTokens, flushWord, hne, hpathne, hechone]
  unfold shellRuns
  rw [htokens]
  simp [simpleCommands, hname]

/-- What it writes then is up to `echo`. -/
theorem writes_twice_iff {newpasswd : Bytes} (hne : newpasswd ≠ []) (hplain : PlainWord newpasswd) :
    (∀ fs, (shellRuns (smbpasswdText newpasswd)).bind (runEchos · fs)
      = some (Function.update fs smbpasswdPath (newpasswd ++ [10] ++ (newpasswd ++ [10]))))
      ↔ isEchoOption newpasswd = false := by
  have hrun : ∀ fs, (shellRuns (smbpasswdText newpasswd)).bind (runEchos · fs)
      = some (Function.update fs smbpasswdPath (echo [newpasswd] ++ echo [newpasswd])) := by
    intro fs
    rw [shellRuns_smbpasswdText hne hplain]
    exact runEchos_twice newpasswd smbpasswdPath fs
  constructor
  · intro hwrites
    by_contra hoption
    have hshort := echo_option (Bool.not_eq_false _ ▸ hoption)
    have hsame := (hrun fun _ => []).symm.trans (hwrites fun _ => [])
    have hfile := congrFun (Option.some.inj hsame) smbpasswdPath
    rw [Function.update_self, Function.update_self] at hfile
    -- The file is too short for two lines.
    have hlen := congrArg List.length hfile
    have hpos := List.length_pos_of_ne_nil hne
    simp only [List.length_append, List.length_singleton] at hlen
    omega
  · intro hword fs
    rw [hrun, echo_word hword]

/-! ## The handlers -/

/-- Each handler runs the command of `webs_set_password`. -/
theorem handle_cmd {route : PasswordRoute} {env : PasswordEnv} {d : Pridata} {wp : WebsRec}
    {old new : Bytes} (h : route.handed env d wp = some (old, new)) :
    (route.handle env d wp).cmd = (webs_set_password env.update d old new).cmd := by
  have heq := congrArg Prod.snd (handle_eq route env d wp)
  rw [h] at heq
  exact heq

/-- A command is run for the passwords that are accepted and stored. -/
theorem webs_set_password_cmd {update : Int} {d : Pridata} {old new cmd : Bytes} :
    (webs_set_password update d old new).cmd = some cmd ↔
      Accepted d old new ∧ update = 0 ∧ cmd = smbpasswdCmd new := by
  by_cases hacc : Accepted d old new
  · rw [webs_set_password_accepted update hacc, storePassword]
    by_cases hupdate : update = 0
    · simp only [if_pos hupdate, Option.some.injEq]
      exact ⟨fun h => ⟨hacc, hupdate, h.symm⟩, fun h => h.2.2.symm⟩
    · simp only [if_neg hupdate]
      exact ⟨fun h => (Option.some_ne_none cmd h.symm).elim, fun h => absurd h.2.1 hupdate⟩
  · obtain ⟨ret, -, hset⟩ := webs_set_password_refused update hacc
    rw [hset]
    exact ⟨fun h => (Option.some_ne_none cmd h.symm).elim, fun h => absurd h.1 hacc⟩

/-- **The Samba password.** The file gets the password twice exactly for the passwords of at
most 15 characters that are plain to the shell and no option of `echo`. -/
theorem samba_law_iff (route : PasswordRoute) (env : PasswordEnv) (d : Pridata) (wp : WebsRec) :
    SambaLaw route env d wp ↔
      ∀ old new, route.handed env d wp = some (old, new) → Accepted d old new → env.update = 0 →
        new.length ≤ 15 ∧ PlainWord new ∧ isEchoOption new = false := by
  unfold SambaLaw
  constructor
  · intro hlaw old new hhanded hacc hupdate
    have hrun : (route.handle env d wp).cmd = some (smbpasswdCmd new) :=
      (handle_cmd hhanded).trans (webs_set_password_cmd.mpr ⟨hacc, hupdate, rfl⟩)
    have hcmd := hlaw old new _ hhanded hrun
    refine ⟨(smbpasswdCmd_eq_iff new).mp hcmd.whole, hcmd.plain, ?_⟩
    apply (writes_twice_iff hacc.1 hcmd.plain).mp
    have hwrites := hcmd.writes
    rw [hcmd.whole] at hwrites
    exact hwrites
  · intro hlaw old new cmd hhanded hrun
    obtain ⟨hacc, hupdate, rfl⟩ := webs_set_password_cmd.mp ((handle_cmd hhanded).symm.trans hrun)
    obtain ⟨hlen, hplain, hword⟩ := hlaw old new hhanded hacc hupdate
    have hwhole := (smbpasswdCmd_eq_iff new).mpr hlen
    refine ⟨hwhole, hplain, ?_, ?_⟩
    · rw [hwhole]
      exact shellRuns_smbpasswdText hacc.1 hplain
    · rw [hwhole]
      exact (writes_twice_iff hacc.1 hplain).mpr hword

/-- A form whose new password has a command in it. -/
def passwordWithCommand : WebsRec where
  ipaddr := bytes "192.168.1.100"
  cgiVars := [(bytes "oldPassword", bytes "Secret01"), (bytes "newPassword", bytes "a;reboot;b")]

/-- The new password is run by the shell. -/
theorem password_reaches_shell :
    ¬ ∀ (route : PasswordRoute) (env : PasswordEnv) (d : Pridata) (wp : WebsRec),
      SambaLaw route env d wp := by
  intro hall
  have hlaw := hall .tn ⟨⟨fun _ => none, fun _ => []⟩, ⟨false, false⟩, ⟨[], []⟩, 0⟩
    (passwordData "Secret01") passwordWithCommand
  have hhanded : PasswordRoute.handed ⟨⟨fun _ => none, fun _ => []⟩, ⟨false, false⟩, ⟨[], []⟩, 0⟩
      (passwordData "Secret01") passwordWithCommand .tn
        = some (bytes "Secret01", bytes "a;reboot;b") := by decide
  have hcmd := hlaw _ _ (smbpasswdCmd (bytes "a;reboot;b")) hhanded (by decide)
  exact absurd hcmd.plain (by decide)

end TestCore.Webs
