import Distant.Lib.Lines
import Distant.Lib.Replace
import Distant.Lib.Words

/-!
# Commands wrapped for a shell

The client wraps a command for the shell that it is given, `path -c '…'`, by the quoting rules of
that shell. The server splits the whole by its own rules, which are those of a POSIX shell, and
spawns the first word with the others as arguments. Nothing quotes the path, and what is quoted for
`rc`, `elvish` or `nu` is read by other rules than theirs. `wrapped_survives_iff` says when the server ends
up with the three words that are meant.
-/

namespace Distant

inductive ShellKind where
  | ash
  | bash
  | cmdExe
  | csh
  | dash
  | elvish
  | fish
  | ksh
  | loksh
  | mksh
  | nu
  | pdksh
  | powerShell
  | rc
  | scsh
  | sh
  | tcsh
  | zsh
  deriving DecidableEq, Repr

namespace ShellKind

def isPosix : ShellKind → Bool
  | .ash | .bash | .csh | .dash | .fish | .ksh | .loksh | .mksh | .pdksh | .scsh | .sh | .tcsh
  | .zsh => true
  | .cmdExe | .elvish | .nu | .powerShell | .rc => false

/-- The names of the shells, in lower case. -/
def names : List (String × ShellKind) :=
  [("ash", .ash), ("bash", .bash), ("cmd", .cmdExe), ("cmd.exe", .cmdExe), ("csh", .csh),
    ("dash", .dash), ("elvish", .elvish), ("fish", .fish), ("ksh", .ksh), ("loksh", .loksh),
    ("mksh", .mksh), ("nu", .nu), ("pdksh", .pdksh), ("powershell", .powerShell),
    ("powershell.exe", .powerShell), ("rc", .rc), ("scsh", .scsh), ("sh", .sh), ("tcsh", .tcsh),
    ("zsh", .zsh)]

/-- `str::eq_ignore_ascii_case` -/
def eqIgnoreAsciiCase (a b : List Char) : Bool := a.map Char.toLower == b.map Char.toLower

def fromName (name : List Char) : Option ShellKind :=
  (names.find? fun entry => eqIgnoreAsciiCase (trim name) entry.1.toList).map (·.2)

/-- The last component of a path, as a Unix path and as a Windows path. -/
structure FileNames where
  unix : List Char → Option (List Char)
  windows : List Char → Option (List Char)

def identify (fileNames : FileNames) (s : List Char) : Option ShellKind :=
  ((fromName s).or ((fileNames.unix s).bind fromName)).or ((fileNames.windows s).bind fromName)

end ShellKind

structure Shell where
  path : List Char
  kind : ShellKind
  deriving DecidableEq, Repr

namespace Shell

def isPosix (shell : Shell) : Bool := shell.kind.isPosix

def fromStr (fileNames : ShellKind.FileNames) (s : List Char) : Except (List Char) Shell :=
  match ShellKind.identify fileNames (trim s) with
  | some kind => .ok ⟨trim s, kind⟩
  | none => .error ("Unsupported shell: ".toList ++ trim s)

/-- `{path} -c {open}{cmd}{close}` -/
def dashC (path : List Char) (quote : Char) (cmd : List Char) : List Char :=
  path ++ ' ' :: '-' :: 'c' :: ' ' :: quote :: (cmd ++ [quote])

def makeCmdString (shell : Shell) (cmd : List Char) : Except String (List Char) :=
  match shell.kind with
  | .cmdExe => .ok (shell.path ++ (" /S /C \"".toList ++ (cmd ++ ['"'])))
  | .powerShell =>
    .ok ("cmd.exe /S /C \"".toList ++ (shell.path ++ (" -Command ".toList ++
      (replace ['"'] ['"', '"'] cmd ++ ['"']))))
  | .rc | .elvish => .ok (dashC shell.path '\'' (replace ['\''] ['\'', '\''] cmd))
  | .nu =>
    match cmd.contains '\'', cmd.contains '`' with
    | true, true =>
      .error "unable to escape single quotes and backticks at the same time with nu"
    | true, false => .ok (dashC shell.path '`' cmd)
    | _, _ => .ok (dashC shell.path '\'' cmd)
  | _ => .ok (dashC shell.path '\'' (replace ['\''] ['\'', '\\', '\'', '\''] cmd))

end Shell

inductive SpawnError where
  | missingClosingQuote
  | commandWasEmpty
  deriving DecidableEq, Repr

/-- What `ProcessInstance::spawn` runs, with which arguments, on a server that is not Windows. -/
def commandAndArgs (split : List Char → Option (List (List Char))) (cmd : List Char) :
    Except SpawnError (List Char × List (List Char)) :=
  match split cmd with
  | none => .error .missingClosingQuote
  | some [] => .error .commandWasEmpty
  | some (cmd :: args) => .ok (cmd, args)

namespace Shell

/-- The server runs the shell with the command as it was given. -/
def Survives (split : List Char → Option (List (List Char))) (shell : Shell)
    (cmd text : List Char) : Prop :=
  commandAndArgs split text = .ok (shell.path, [['-', 'c'], cmd])

open Words

section Quoting

variable {path cmd w text : List Char} {shell : Shell}

theorem survives_iff_split :
    Survives Words.split shell cmd text ↔
      Words.split text = some [shell.path, ['-', 'c'], cmd] := by
  unfold Survives commandAndArgs
  cases Words.split text with
  | none => simp
  | some words =>
      cases words with
      | nil => simp
      | cons word words => simp

/-! ## What the server reads -/

/-- Behind a path that is read as it is, what is quoted is read by itself. -/
theorem run_dashC (h : PlainWord path) (quote : Char) :
    run .delimiter (dashC path quote cmd) =
      (path :: ['-', 'c'] :: (run .delimiter (quote :: (cmd ++ [quote]))).1,
        (run .delimiter (quote :: (cmd ++ [quote]))).2) := by
  have hc : PlainWord ['-', 'c'] := ⟨by decide, by decide, List.all_eq_true.mp (by decide)⟩
  have htail := hc.run_blank (quote :: (cmd ++ [quote]))
  rw [dashC, h.run_blank]
  simp only [List.cons_append, List.nil_append] at htail
  rw [htail]

/-- The words behind a path that is read as it is, if the quoted text is read as one. -/
theorem split_dashC (h : PlainWord path)
    (hrun : run (.singleQuoted []) (text ++ ['\'']) = ([], .unquoted w)) :
    Words.split (dashC path '\'' text) = some [path, ['-', 'c'], w] := by
  have hquoted : run .delimiter ('\'' :: (text ++ ['\''])) = ([], .unquoted w) := hrun
  rw [Words.split, run_dashC h, hquoted]
  rfl

/-- The quoting of POSIX is what the server undoes. -/
theorem run_escaped (cmd w : List Char) :
    run (.singleQuoted w) (replace ['\''] ['\'', '\\', '\'', '\''] cmd ++ ['\'']) =
      ([], .unquoted (w ++ cmd)) := by
  rw [replace_singleton]
  induction cmd generalizing w with
  | nil =>
      rw [List.append_nil]
      rfl
  | cons c cmd ih =>
      rw [List.flatMap_cons, List.append_assoc]
      by_cases hc : c = '\''
      · subst hc
        have hrest := ih (w ++ ['\''])
        rw [List.append_assoc, List.singleton_append] at hrest
        rw [if_pos rfl, ← hrest]
        rfl
      · have hrest := ih (w ++ [c])
        rw [List.append_assoc, List.singleton_append] at hrest
        rw [if_neg hc, run_singleQuoted (by simpa using Ne.symm hc), hrest]

/-- A quote that is doubled is no quote at all for the server. -/
theorem run_doubled (cmd w : List Char) :
    run (.singleQuoted w) (replace ['\''] ['\'', '\''] cmd ++ ['\'']) =
      ([], .unquoted (w ++ cmd.filter (· ≠ '\''))) := by
  rw [replace_singleton]
  induction cmd generalizing w with
  | nil =>
      rw [List.filter_nil, List.append_nil]
      rfl
  | cons c cmd ih =>
      rw [List.flatMap_cons, List.append_assoc]
      by_cases hc : c = '\''
      · subst hc
        rw [if_pos rfl, List.filter_cons_of_neg (by simp), ← ih w]
        rfl
      · have hrest := ih (w ++ [c])
        rw [List.append_assoc, List.singleton_append] at hrest
        rw [if_neg hc, run_singleQuoted (by simpa using Ne.symm hc), hrest,
          List.filter_cons_of_pos (by simpa using hc)]

/-- Between backticks the command is not quoted at all, and the backtick is a part of the word. -/
theorem not_split_backtick (h : PlainWord path) (hcmd : '`' ∉ cmd) :
    Words.split (dashC path '`' cmd) ≠ some [path, ['-', 'c'], cmd] := by
  intro hsplit
  rw [Words.split, run_dashC h] at hsplit
  obtain ⟨last, hlast, heq⟩ := Option.map_eq_some_iff.mp hsplit
  simp only [List.cons_append, List.cons.injEq, true_and] at heq
  have hread : (State.unquoted ['`']).read = some ['`'] := rfl
  have hwords : (finish (run (.unquoted ['`']) (cmd ++ ['`'])).2).map
      ((run (.unquoted ['`']) (cmd ++ ['`'])).1 ++ ·) = some [cmd] :=
    Option.map_eq_some_iff.mpr ⟨last, hlast, heq⟩
  obtain ⟨more, rest, hwords⟩ := exists_cons_of_read hread hwords
  rw [(List.cons.inj hwords).1] at hcmd
  exact hcmd List.mem_cons_self

/-! ## Which paths are read as they are -/

/-- A command without a single quote survives exactly behind such a path. -/
theorem split_dashC_iff (hcmd : '\'' ∉ cmd) :
    Words.split (dashC path '\'' cmd) = some [path, ['-', 'c'], cmd] ↔ PlainWord path := by
  constructor
  · intro hsplit
    have htext : dashC path '\'' cmd =
        (path ++ ' ' :: '-' :: 'c' :: ' ' :: '\'' :: cmd) ++ ['\''] := by
      simp [dashC]
    have hcount : cmd.count '\'' = 0 := List.count_eq_zero_of_not_mem hcmd
    have htight : Tight .delimiter (dashC path '\'' cmd) := by
      rw [htext] at hsplit ⊢
      apply tight_of_split hsplit
      simp [size, quotes, List.count_append, hcount]
      omega
    exact plainWord_of_tight htight hsplit
  · intro h
    apply split_dashC h
    rw [run_singleQuoted hcmd]
    rfl

/-! ## The shells -/

/-- Without a single quote there is nothing to escape, and all shells quote alike. -/
theorem makeCmdString_of_not_mem (hcmdExe : shell.kind ≠ .cmdExe)
    (hpowerShell : shell.kind ≠ .powerShell) (hcmd : '\'' ∉ cmd) :
    shell.makeCmdString cmd = .ok (dashC shell.path '\'' cmd) := by
  have hreplace (new : List Char) : replace ['\''] new cmd = cmd := by
    rw [replace_singleton]
    have hsame : cmd.flatMap (fun d => if d = '\'' then new else [d]) = cmd.flatMap ([·]) := by
      apply List.flatMap_congr
      intro d hd
      rw [if_neg]
      rintro rfl
      exact hcmd hd
    rw [hsame, List.flatMap_singleton']
  have hcontains : cmd.contains '\'' = false := by simpa using hcmd
  unfold makeCmdString
  cases hkind : shell.kind <;> simp_all

theorem survives_of_isPosix (hposix : shell.isPosix = true) (hpath : PlainWord shell.path)
    (htext : shell.makeCmdString cmd = .ok text) : Survives Words.split shell cmd text := by
  have heq : shell.makeCmdString cmd =
      .ok (dashC shell.path '\'' (replace ['\''] ['\'', '\\', '\'', '\''] cmd)) := by
    unfold isPosix ShellKind.isPosix at hposix
    unfold makeCmdString
    cases hkind : shell.kind <;> simp_all
  rw [heq] at htext
  cases htext
  rw [survives_iff_split]
  exact split_dashC hpath (run_escaped cmd [])

/-- The other shells quote a single quote in a way that the server does not know. -/
theorem not_survives_of_mem (hcmdExe : shell.kind ≠ .cmdExe)
    (hpowerShell : shell.kind ≠ .powerShell) (hposix : shell.isPosix = false)
    (hpath : PlainWord shell.path) (hcmd : '\'' ∈ cmd)
    (htext : shell.makeCmdString cmd = .ok text) : ¬ Survives Words.split shell cmd text := by
  have hcases : shell.kind = .nu ∨ shell.kind = .rc ∨ shell.kind = .elvish := by
    unfold isPosix ShellKind.isPosix at hposix
    cases hkind : shell.kind <;> simp_all
  have hdoubled (hdoubled : text = dashC shell.path '\'' (replace ['\''] ['\'', '\''] cmd)) :
      ¬ Survives Words.split shell cmd text := by
    rw [survives_iff_split, hdoubled, split_dashC hpath (run_doubled cmd [])]
    intro h
    simp only [Option.some.injEq, List.cons.injEq, List.nil_append, true_and, and_true] at h
    rw [← h] at hcmd
    simp at hcmd
  unfold makeCmdString at htext
  rcases hcases with hkind | hkind | hkind
  · have hcontains : cmd.contains '\'' = true := by simpa using hcmd
    simp only [hkind, hcontains] at htext
    cases hback : cmd.contains '`' with
    | true =>
        rw [hback] at htext
        cases htext
    | false =>
        rw [hback] at htext
        cases htext
        rw [survives_iff_split]
        exact not_split_backtick hpath (by simpa using hback)
  · rw [hkind] at htext
    exact hdoubled (Except.ok.inj htext).symm
  · rw [hkind] at htext
    exact hdoubled (Except.ok.inj htext).symm

theorem path_of_fromStr {fileNames : ShellKind.FileNames} {s : List Char}
    (h : fromStr fileNames s = .ok shell) : shell.path = trim s := by
  unfold fromStr at h
  split at h
  · cases h
    rfl
  · cases h

/-- For a command without a single quote the path decides, and behind a path that is read as it is
the shell and the quotes of the command do. -/
theorem survives_iff_of_text (hcmdExe : shell.kind ≠ .cmdExe)
    (hpowerShell : shell.kind ≠ .powerShell) (htext : shell.makeCmdString cmd = .ok text)
    (h : '\'' ∉ cmd ∨ PlainWord shell.path) :
    Survives Words.split shell cmd text ↔
      PlainWord shell.path ∧ (shell.isPosix = true ∨ '\'' ∉ cmd) := by
  by_cases hcmd : '\'' ∈ cmd
  · have hpath : PlainWord shell.path := h.resolve_left (not_not_intro hcmd)
    cases hposix : shell.isPosix with
    | true =>
        exact iff_of_true (survives_of_isPosix hposix hpath htext) ⟨hpath, Or.inl rfl⟩
    | false =>
        refine iff_of_false
          (not_survives_of_mem hcmdExe hpowerShell hposix hpath hcmd htext) ?_
        rintro ⟨-, hposix | hnot⟩
        · cases hposix
        · exact hnot hcmd
  · rw [makeCmdString_of_not_mem hcmdExe hpowerShell hcmd] at htext
    cases htext
    rw [survives_iff_split, split_dashC_iff hcmd]
    exact (and_iff_left (Or.inr hcmd)).symm

/-- All commands survive exactly behind a path that is read as it is, for a POSIX shell. For any
other shell, and for one command, the quotes of the command decide. -/
theorem wrapped_survives_iff {split : List Char → Option (List (List Char))}
    {fileNames : ShellKind.FileNames} {s : List Char} (hsplit : ∀ t, split t = Words.split t)
    (h : fromStr fileNames s = .ok shell) (hcmdExe : shell.kind ≠ .cmdExe)
    (hpowerShell : shell.kind ≠ .powerShell) :
    ((∀ cmd text, shell.makeCmdString cmd = .ok text → Survives split shell cmd text) ↔
        PlainWord (trim s) ∧ shell.isPosix = true) ∧
      ∀ cmd text, shell.makeCmdString cmd = .ok text → '\'' ∉ cmd ∨ PlainWord (trim s) →
        (Survives split shell cmd text ↔
          PlainWord (trim s) ∧ (shell.isPosix = true ∨ '\'' ∉ cmd)) := by
  obtain rfl : split = Words.split := funext hsplit
  rw [← path_of_fromStr h]
  refine ⟨⟨?_, ?_⟩, ?_⟩
  · intro hall
    -- the empty command shows that the path is plain, and a single quote that the shell is POSIX
    have hempty : shell.makeCmdString [] = .ok (dashC shell.path '\'' []) :=
      makeCmdString_of_not_mem hcmdExe hpowerShell List.not_mem_nil
    have hpath := ((survives_iff_of_text hcmdExe hpowerShell hempty
      (Or.inl List.not_mem_nil)).mp (hall _ _ hempty)).1
    obtain ⟨text, htext⟩ : ∃ text, shell.makeCmdString ['\''] = .ok text := by
      unfold makeCmdString
      cases shell.kind <;> exact ⟨_, rfl⟩
    have hquote := ((survives_iff_of_text hcmdExe hpowerShell htext
      (Or.inr hpath)).mp (hall _ _ htext)).2
    exact ⟨hpath, hquote.resolve_right (not_not_intro List.mem_cons_self)⟩
  · rintro ⟨hpath, hposix⟩ cmd text htext
    exact survives_of_isPosix hposix hpath htext
  · intro cmd text htext hor
    exact survives_iff_of_text hcmdExe hpowerShell htext hor

end Quoting

/-- The part of a path behind its last separator. -/
def lastParts : ShellKind.FileNames where
  unix s := (s.splitOn '/').getLast?
  windows s := (s.splitOnP fun c => c == '/' || c == '\\').getLast?

theorem survives_zsh :
    Survives Words.split ⟨"/usr/bin/zsh".toList, .zsh⟩ "echo 'a  b' `c`".toList
      "/usr/bin/zsh -c 'echo '\\''a  b'\\'' `c`'".toList := by
  have hfrom : fromStr lastParts " /usr/bin/zsh".toList =
      .ok ⟨"/usr/bin/zsh".toList, .zsh⟩ := by
    decide
  have hplain : PlainWord (trim " /usr/bin/zsh".toList) :=
    ⟨by decide, by decide, List.all_eq_true.mp (by decide)⟩
  exact ((wrapped_survives_iff (fun _ => rfl) hfrom (by decide) (by decide)).1.mpr ⟨hplain, rfl⟩) _ _
    (by decide)

/-- A path with a blank falls apart, and a quote that is doubled is lost. -/
theorem not_survives_blank_and_doubled :
    fromStr lastParts "/opt/my shells/bash".toList =
        .ok ⟨"/opt/my shells/bash".toList, .bash⟩ ∧
      makeCmdString ⟨"/opt/my shells/bash".toList, .bash⟩ "ls".toList =
        .ok "/opt/my shells/bash -c 'ls'".toList ∧
      Words.split "/opt/my shells/bash -c 'ls'".toList =
        some ["/opt/my".toList, "shells/bash".toList, "-c".toList, "ls".toList] ∧
      ¬ Survives Words.split ⟨"/opt/my shells/bash".toList, .bash⟩ "ls".toList
        "/opt/my shells/bash -c 'ls'".toList ∧
      fromStr lastParts "elvish".toList = .ok ⟨"elvish".toList, .elvish⟩ ∧
      makeCmdString ⟨"elvish".toList, .elvish⟩ "echo 'a  b'".toList =
        .ok "elvish -c 'echo ''a  b'''".toList ∧
      Words.split "elvish -c 'echo ''a  b'''".toList =
        some ["elvish".toList, "-c".toList, "echo a  b".toList] ∧
      ¬ Survives Words.split ⟨"elvish".toList, .elvish⟩ "echo 'a  b'".toList
        "elvish -c 'echo ''a  b'''".toList := by
  refine ⟨by decide, by decide, by decide, ?_, by decide,
    by decide, by decide, ?_⟩
  · rw [survives_iff_split]
    decide
  · rw [survives_iff_split]
    decide

end Shell

end Distant
