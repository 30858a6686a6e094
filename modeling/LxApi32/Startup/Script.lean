import LxApi32.Startup.LineIn

/-!
# Scripts

`LX_process_script` reads the lines of a script and calls the function of the command that a line
begins with.

* `searchCommands_eq` : the search for the command of a line.
* `scriptLoop_eq` : the calls that a script makes.
* `lxProcessScript_iff` : when they are those that the lines ask for.
-/

namespace LxApi32

/-- `' '` -/
def charBlank : UInt8 := 0x20

/-- `'#'` -/
def charHash : UInt8 := 0x23

/-- The functions of the commands. -/
inductive ScrFn
  /-- `LX_set_option_from_string` -/
  | setOptionFromString
  /-- `LX_vmlinuz` -/
  | vmlinuz
  /-- `LX_init` -/
  | init
  deriving DecidableEq, Repr

/-- `_lx_scr_commands` -/
structure ScrCommand where
  /-- `cmdName` -/
  cmdName : Bytes
  /-- `fn` -/
  fn : ScrFn
  deriving DecidableEq, Repr

/-- `lx_scr_commands` : `"options "`, `"vmlinuz "` and `"init "`. -/
def lxScrCommands : List ScrCommand :=
  [⟨[0x6f, 0x70, 0x74, 0x69, 0x6f, 0x6e, 0x73, 0x20], .setOptionFromString⟩,
    ⟨[0x76, 0x6d, 0x6c, 0x69, 0x6e, 0x75, 0x7a, 0x20], .vmlinuz⟩,
    ⟨[0x69, 0x6e, 0x69, 0x74, 0x20], .init⟩]

/-- `lx_num_scr_commands` -/
def lxNumScrCommands : ℕ := lxScrCommands.length

/-- `MAX_SCR_LINE_LEN` -/
def maxScrLineLen : ULONG := 1000

/-- What a line of a script does. -/
inductive ScriptEvent
  /-- `fn(cmd)`; there is no string for `NULL`. -/
  | call (fn : ScrFn) (cmd : Option Bytes)
  /-- `Error in %s in line %d` -/
  | error (lc : ℕ)
  deriving DecidableEq, Repr

open CString

/-- The loop over the commands, from the `i`-th on. -/
def searchCommands (line : Bytes) (lc : ℕ) : ℕ → List ScrCommand → List ScriptEvent
  | _, [] => []
  | i, e :: es =>
    let next :=
      (if lxNumScrCommands ≤ i then [.error lc] else []) ++ searchCommands line lc (i + 1) es
    if strncmp line e.cmdName (strlen e.cmdName - 1) = 0 then
      if line.getD (strlen e.cmdName - 1) 0 = charBlank then
        [.call e.fn (some (str (line.drop (strlen e.cmdName))))]
      else if line.getD (strlen e.cmdName - 1) 0 = 0 then [.call e.fn none]
      else next
    else next

/-- The body of the loop of `LX_process_script`. -/
def processLine (line : Bytes) (lc : ℕ) : Bytes × List ScriptEvent :=
  let tmp := strlen line
  let strip := 0 < tmp ∧ (line.getD (tmp - 1) 0 = charCR ∨ line.getD (tmp - 1) 0 = charLF)
  let line' := if strip then line.set (tmp - 1) 0 else line
  let tmp' := if strip then tmp - 1 else tmp
  (line', if 0 < tmp' ∧ line'.getD 0 0 ≠ charHash then searchCommands line' lc 0 lxScrCommands
    else [])

/-- The loop of `LX_process_script`, for `n` rounds at most. -/
def scriptLoop (handle : ULONG) : ℕ → SioFiles → Bytes → ℕ → Option (List ScriptEvent)
  | 0, _, _, _ => none
  | n + 1, f, line, lc =>
    let r := lxSiLinein f handle maxScrLineLen line
    if r.ret then
      let (line, events) := processLine r.buffer (lc + 1)
      (scriptLoop handle n r.files line (lc + 1)).map (events ++ ·)
    else some []

/-- `LX_process_script`, with the results of the two allocations and of `LX_si_open`. -/
def lxProcessScript (fullScrName line : Option Bytes) (opened : Option ULONG) (f : SioFiles)
    (n : ℕ) : Option (List ScriptEvent) :=
  match fullScrName, line, opened with
  | some _, some line, some handle => scriptLoop handle n f line 0
  | _, _, _ => some []

/-! ### A line -/

/-- The command of an entry, without the blank. -/
def ScrCommand.word (e : ScrCommand) : Bytes := e.cmdName.dropLast

/-- The name of an entry is a word and a blank. -/
def ScrCommand.IsWord (e : ScrCommand) : Prop :=
  e.cmdName = e.word ++ [charBlank] ∧ charBlank ∉ e.word ∧ NoNul e.word

instance (e : ScrCommand) : Decidable e.IsWord := inferInstanceAs (Decidable (_ ∧ _ ∧ _))

theorem isWord_lxScrCommands : ∀ e ∈ lxScrCommands, e.IsWord := by decide

/-- The first word of a line. -/
def firstWord (u : Bytes) : Bytes := u.takeWhile (· != charBlank)

/-- The entry of the first word of a line. -/
def findCommand (cmds : List ScrCommand) (u : Bytes) : Option ScrCommand :=
  cmds.find? fun e => e.word = firstWord u

section

variable {e : ScrCommand} {u v rest : Bytes}

theorem noNul_blank : NoNul [charBlank] := by decide

theorem firstWord_append_blank (hw : charBlank ∉ v) (rest : Bytes) :
    firstWord (v ++ charBlank :: rest) = v := by
  have hpos : ∀ c ∈ v, (c != charBlank) = true := fun c hc =>
    bne_iff_ne.2 fun h => hw (h ▸ hc)
  rw [firstWord, List.takeWhile_append_of_pos hpos, List.takeWhile_cons_of_neg (by simp),
    List.append_nil]

theorem firstWord_eq_self (hw : charBlank ∉ v) : firstWord v = v :=
  List.takeWhile_eq_self_iff.2 fun _ hc => bne_iff_ne.2 fun h => hw (h ▸ hc)

/-- A line is its first word, or it goes on with a blank. -/
theorem firstWord_cases (u : Bytes) : u = firstWord u ∨ ∃ a, u = firstWord u ++ charBlank :: a := by
  by_cases h : charBlank ∈ u
  · obtain ⟨w, a, rfl, hw⟩ := List.eq_append_cons_of_mem h
    exact .inr ⟨a, by rw [firstWord_append_blank hw]⟩
  · exact .inl (firstWord_eq_self h).symm

theorem ScrCommand.IsWord.strlen_eq (he : e.IsWord) : strlen e.cmdName = e.word.length + 1 := by
  have hnul : NoNul (e.word ++ [charBlank]) := he.2.2.append noNul_blank
  rw [he.1, strlen, hnul.str_eq, List.length_append, List.length_singleton]

/-- The first test of the loop. -/
theorem ScrCommand.IsWord.strncmp_eq (he : e.IsWord) (hu : NoNul u) (rest : Bytes) :
    strncmp (u ++ 0 :: rest) e.cmdName e.word.length = 0 ↔ e.word <+: u := by
  have hnul : NoNul (e.word ++ [charBlank]) := he.2.2.append noNul_blank
  rw [strncmp_eq_zero_iff, str_append_zero hu, he.1, hnul.str_eq, List.take_left,
    List.prefix_iff_eq_take]
  exact eq_comm

/-- The name of an entry stands at the beginning of a line. -/
theorem ScrCommand.IsWord.prefix_iff (he : e.IsWord) :
    e.cmdName <+: u ↔ e.word = firstWord u ∧ u ≠ firstWord u := by
  constructor
  · rintro ⟨a, rfl⟩
    have hfirst : firstWord (e.cmdName ++ a) = e.word := by
      rw [he.1, List.append_assoc, List.singleton_append, firstWord_append_blank he.2.1]
    refine ⟨hfirst.symm, fun h => ?_⟩
    have hlen := congrArg List.length (h.trans hfirst)
    rw [he.1] at hlen
    simp at hlen
  · rintro ⟨hword, hne⟩
    obtain ⟨a, ha⟩ := (firstWord_cases u).resolve_left hne
    exact ⟨a, by rw [he.1, hword, List.append_assoc, List.singleton_append, ← ha]⟩

/-- What the loop does for a line: nothing for a word that is no command. -/
def foundEvents (cmds : List ScrCommand) (u : Bytes) : List ScriptEvent :=
  match findCommand cmds u with
  | some e =>
    [.call e.fn (if u = firstWord u then none else some (u.drop ((firstWord u).length + 1)))]
  | none => []

/-- An entry whose word is not the first word of the line is passed over. -/
theorem searchCommands_cons_ne (hu : NoNul u) (he : e.IsWord) (hne : e.word ≠ firstWord u)
    (rest : Bytes) (lc : ℕ) {i : ℕ} (hi : i < lxNumScrCommands) (es : List ScrCommand) :
    searchCommands (u ++ 0 :: rest) lc i (e :: es) =
      searchCommands (u ++ 0 :: rest) lc (i + 1) es := by
  rw [searchCommands, he.strlen_eq, Nat.add_sub_cancel, if_neg (Nat.not_le.2 hi), List.nil_append]
  by_cases hpre : e.word <+: u
  · obtain ⟨v, rfl⟩ := hpre
    cases v with
    | nil => exact absurd (by rw [List.append_nil, firstWord_eq_self he.2.1]) hne
    | cons c v =>
      have hblank : c ≠ charBlank := by
        rintro rfl
        exact hne (firstWord_append_blank he.2.1 v).symm
      have hnul : c ≠ 0 := hu c (by simp)
      simp [hblank, hnul]
  · rw [if_neg (mt (he.strncmp_eq hu rest).1 hpre)]

/-- The entry whose word is the first word of the line is called. -/
theorem searchCommands_cons_eq (hu : NoNul u) (he : e.IsWord) (heq : e.word = firstWord u)
    (rest : Bytes) (lc i : ℕ) (es : List ScrCommand) :
    searchCommands (u ++ 0 :: rest) lc i (e :: es) =
      [.call e.fn (if u = firstWord u then none
        else some (u.drop ((firstWord u).length + 1)))] := by
  have hpre : e.word <+: u := heq ▸ List.takeWhile_prefix _
  rw [searchCommands, he.strlen_eq, Nat.add_sub_cancel, if_pos ((he.strncmp_eq hu rest).2 hpre),
    ← heq]
  rcases firstWord_cases u with h | ⟨a, h⟩
  · rw [← heq] at h
    rw [if_pos h]
    have hnext : (u ++ 0 :: rest).getD e.word.length 0 = 0 := by simp [h]
    rw [hnext, if_neg (by decide), if_pos rfl]
  · rw [← heq] at h
    have hne : u ≠ e.word := fun h' => by
      have := congrArg List.length (h'.symm.trans h)
      simp at this
    have hnext : (u ++ 0 :: rest).getD e.word.length 0 = charBlank := by simp [h]
    have ha : NoNul a :=
      NoNul.of_append_right (s := e.word ++ [charBlank]) (by simpa [← h] using hu)
    have hdrop : (u ++ 0 :: rest).drop (e.word.length + 1) = a ++ 0 :: rest := by
      simp [h, List.drop_append]
    rw [hnext, if_pos rfl, if_neg hne, hdrop, str_append_zero ha]
    simp [h, List.drop_append]

/-- The search for the command of a line.  `i` is less than `lx_num_scr_commands` in the loop, so no
error is reported. -/
theorem searchCommands_eq (hu : NoNul u) (rest : Bytes) (lc : ℕ) (cmds : List ScrCommand) (i : ℕ)
    (hi : i + cmds.length ≤ lxNumScrCommands) (hcmds : ∀ e ∈ cmds, e.IsWord) :
    searchCommands (u ++ 0 :: rest) lc i cmds = foundEvents cmds u := by
  induction cmds generalizing i with
  | nil => rfl
  | cons e es ih =>
    have he : e.IsWord := hcmds e List.mem_cons_self
    rw [List.length_cons] at hi
    by_cases heq : e.word = firstWord u
    · rw [searchCommands_cons_eq hu he heq, foundEvents, findCommand,
        List.find?_cons_of_pos (by simpa using heq)]
    · rw [searchCommands_cons_ne hu he heq rest lc (by omega), ih (i + 1) (by omega) fun e h =>
        hcmds e (List.mem_cons_of_mem _ h)]
      rw [foundEvents, foundEvents, findCommand, findCommand,
        List.find?_cons_of_neg (by simpa using heq)]

/-- A line without the CR or LF at its end. -/
def stripEnd (u : Bytes) : Bytes :=
  if u.getLast? = some charCR ∨ u.getLast? = some charLF then u.dropLast else u

/-- A line as the loop sees it. -/
def scriptLine (t : Bytes) : Bytes := stripEnd (str t)

/-- What a line does. -/
def lineEvents (u : Bytes) : List ScriptEvent :=
  if u = [] ∨ u.head? = some charHash then [] else foundEvents lxScrCommands u

theorem lineEvents_eq (hu : NoNul u) (rest : Bytes) (lc : ℕ) :
    (if 0 < u.length ∧ (u ++ 0 :: rest).getD 0 0 ≠ charHash then
        searchCommands (u ++ 0 :: rest) lc 0 lxScrCommands else []) = lineEvents u := by
  rw [searchCommands_eq hu rest lc lxScrCommands 0 (Nat.zero_add _).le isWord_lxScrCommands]
  cases u with
  | nil => rfl
  | cons c u => by_cases hc : c = charHash <;> simp [lineEvents, hc]

/-- The body of the loop, for a buffer with a line. -/
theorem processLine_append (hu : NoNul u) (rest : Bytes) (lc : ℕ) :
    (processLine (u ++ 0 :: rest) lc).1.length = (u ++ 0 :: rest).length ∧
      (processLine (u ++ 0 :: rest) lc).2 = lineEvents (stripEnd u) := by
  have hlen : strlen (u ++ 0 :: rest) = u.length := by rw [strlen, str_append_zero hu]
  have hevents := lineEvents_eq hu rest lc
  simp only [processLine, hlen]
  cases u using List.reverseRecOn with
  | nil => simp [stripEnd, lineEvents]
  | append_singleton u c =>
    have hlast : (u ++ [c] ++ 0 :: rest).getD ((u ++ [c]).length - 1) 0 = c := by simp
    have hset : (u ++ [c] ++ 0 :: rest).set ((u ++ [c]).length - 1) 0 = u ++ 0 :: 0 :: rest := by
      simp
    have hpos : 0 < (u ++ [c]).length := by simp
    have hu' : NoNul u := fun d hd => hu d (List.mem_append_left _ hd)
    simp only [hlast, hset, hpos, true_and]
    by_cases hc : c = charCR ∨ c = charLF
    · have hstrip : stripEnd (u ++ [c]) = u := by simp [stripEnd, hc]
      have hsub : (u ++ [c]).length - 1 = u.length := by simp
      rw [if_pos hc, if_pos hc, hstrip, hsub]
      exact ⟨by simp, lineEvents_eq hu' (0 :: rest) lc⟩
    · have hstrip : stripEnd (u ++ [c]) = u ++ [c] := by simp [stripEnd, hc]
      rw [if_neg hc, if_neg hc, hstrip]
      exact ⟨rfl, hevents⟩

/-- The body of the loop, for a line that was read. -/
theorem processLine_lineBuffer {t : Bytes} (ht : t.length < maxScrLineLen.toNat) (lc : ℕ) :
    (processLine (lineBuffer maxScrLineLen t) lc).1.length = maxScrLineLen.toNat ∧
      (processLine (lineBuffer maxScrLineLen t) lc).2 = lineEvents (scriptLine t) := by
  obtain ⟨k, hk⟩ : ∃ k, maxScrLineLen.toNat - t.length = k + 1 :=
    ⟨maxScrLineLen.toNat - t.length - 1, by omega⟩
  have hbuf : ∃ rest, lineBuffer maxScrLineLen t = str t ++ 0 :: rest := by
    rw [lineBuffer, hk, List.replicate_succ]
    rcases eq_str_append t with h | ⟨v, h⟩
    · exact ⟨_, by rw [← h]⟩
    · refine ⟨v ++ 0 :: List.replicate k 0, ?_⟩
      rw [← List.cons_append, ← List.append_assoc, ← h]
  obtain ⟨rest, hrest⟩ := hbuf
  have hlen := length_lineBuffer ht.le
  have := processLine_append (noNul_str t) rest lc
  rw [← hrest, hlen] at this
  exact this

/-! ### A script -/

/-- The lines of a script. -/
def scriptLines (s : Bytes) : List Bytes := (lineTexts s).map scriptLine

/-- What numbered lines do, one after the other. -/
def numbered (g : ℕ → Bytes → List ScriptEvent) : ℕ → List Bytes → List ScriptEvent
  | _, [] => []
  | lc, u :: us => g lc u ++ numbered g (lc + 1) us

variable {f : SioFiles} {handle : ULONG} {line : Bytes}

/-- A round of the loop on a line that was read. -/
theorem scriptLoop_succ {r : LineIn} {t : Bytes} (n lc : ℕ)
    (hr : lxSiLinein f handle maxScrLineLen line = r) (hret : r.ret = true)
    (hbuf : r.buffer = lineBuffer maxScrLineLen t) (ht : t.length < maxScrLineLen.toNat) :
    ∃ line', line'.length = maxScrLineLen.toNat ∧
      scriptLoop handle (n + 1) f line lc =
        (scriptLoop handle n r.files line' (lc + 1)).map (lineEvents (scriptLine t) ++ ·) := by
  obtain ⟨hlen, hevents⟩ := processLine_lineBuffer ht (lc + 1)
  exact ⟨(processLine (lineBuffer maxScrLineLen t) (lc + 1)).1, hlen, by
    simp only [scriptLoop, hr, hret, hbuf, hevents, if_true]⟩

/-- Behind the end of the script the loop is left. -/
theorem scriptLoop_nil (f : SioFiles) (handle : ULONG) (n lc : ℕ)
    (hline : line.length = maxScrLineLen.toNat) :
    scriptLoop handle (n + 1) (Function.update f handle (some [])) line lc = some [] := by
  have hcall := lxSiLinein_open f handle (List.not_mem_nil (a := charLF)) (by decide) hline
  rw [List.map_nil] at hcall
  simp [scriptLoop, hcall]

/-- The loop calls the commands of the lines of a script. -/
theorem scriptLoop_eq (f : SioFiles) (handle : ULONG) (s line : Bytes) (lc n : ℕ)
    (hs : ∀ l ∈ s.splitOn charLF, l.length < maxScrLineLen.toNat)
    (hline : line.length = maxScrLineLen.toNat) (hn : (lineTexts s).length < n) :
    scriptLoop handle n (Function.update f handle (some (s.map .byte))) line lc =
      some (numbered (fun _ => lineEvents) (lc + 1) (scriptLines s)) := by
  induction s using Pieces.induction charLF generalizing line lc n with
  | last l hl =>
    have hlen : l.length < maxScrLineLen.toNat := hs l (by simp [List.splitOn_eq_singleton hl])
    rw [scriptLines, lineTexts_of_notMem hl]
    rw [lineTexts_of_notMem hl] at hn
    by_cases hnil : l = []
    · obtain ⟨n, rfl⟩ : ∃ m, n = m + 1 := ⟨n - 1, by omega⟩
      rw [if_pos hnil, hnil, List.map_nil]
      exact scriptLoop_nil f handle n lc hline
    · rw [if_neg hnil, List.length_singleton] at hn
      obtain ⟨n, rfl⟩ : ∃ m, n = m + 1 + 1 := ⟨n - 2, by omega⟩
      have hret : decide (l ≠ []) = true := decide_eq_true hnil
      obtain ⟨line', hline', hloop⟩ := scriptLoop_succ (n + 1) lc
        (lxSiLinein_open f handle hl hlen hline) hret rfl hlen
      rw [hloop, scriptLoop_nil f handle n (lc + 1) hline', if_neg hnil]
      simp [numbered]
  | piece l t hl ih =>
    have hlen : l.length < maxScrLineLen.toNat :=
      hs l (by simp [List.splitOn_append_cons_self_of_not_mem hl])
    have ht : ∀ p ∈ t.splitOn charLF, p.length < maxScrLineLen.toNat := fun p hp =>
      hs p (by simp [List.splitOn_append_cons_self_of_not_mem hl, hp])
    rw [lineTexts_append hl, List.length_cons] at hn
    obtain ⟨n, rfl⟩ : ∃ m, n = m + 1 := ⟨n - 1, by omega⟩
    obtain ⟨line', hline', hloop⟩ := scriptLoop_succ n lc
      (lxSiLinein_ended f handle (t.map .byte) hl hlen hline) rfl rfl
      ((length_endedText_le l).trans_lt hlen)
    rw [List.map_append, List.map_cons, hloop, ih line' (lc + 1) n ht hline' (by omega),
      scriptLines, scriptLines, lineTexts_append hl]
    rfl

/-! ### What the lines ask for -/

/-- What a line asks for: the call of its command with the text behind the blank, or a report. -/
def askedEvents (lc : ℕ) (u : Bytes) : List ScriptEvent :=
  if u = [] ∨ u.head? = some charHash then []
  else match findCommand lxScrCommands u with
    | some e => [.call e.fn (some (u.drop ((firstWord u).length + 1)))]
    | none => [.error lc]

/-- A line that is empty, a comment, or a command and a blank. -/
def WellFormedLine (u : Bytes) : Prop :=
  u = [] ∨ u.head? = some charHash ∨ ∃ e ∈ lxScrCommands, e.cmdName <+: u

theorem length_lineEvents_le (lc : ℕ) (u : Bytes) :
    (lineEvents u).length ≤ (askedEvents lc u).length := by
  unfold lineEvents askedEvents foundEvents
  cases findCommand lxScrCommands u <;> split_ifs <;> simp

theorem lineEvents_eq_iff (lc : ℕ) (u : Bytes) :
    lineEvents u = askedEvents lc u ↔ WellFormedLine u := by
  unfold lineEvents askedEvents foundEvents WellFormedLine
  by_cases hskip : u = [] ∨ u.head? = some charHash
  · rw [if_pos hskip, if_pos hskip]
    exact iff_of_true rfl (hskip.imp_right .inl)
  · rw [if_neg hskip, if_neg hskip, ← or_assoc, or_iff_right hskip]
    cases hfind : findCommand lxScrCommands u with
    | none =>
      refine iff_of_false (by simp) ?_
      rintro ⟨e, he, hpre⟩
      have hword := ((isWord_lxScrCommands e he).prefix_iff.1 hpre).1
      exact List.find?_eq_none.1 hfind e he (by simpa using hword)
    | some e =>
      have he : e ∈ lxScrCommands := List.mem_of_find?_eq_some hfind
      have hword : e.word = firstWord u := by simpa using List.find?_some hfind
      have hiff : (∃ e ∈ lxScrCommands, e.cmdName <+: u) ↔ u ≠ firstWord u :=
        ⟨fun ⟨e, he, hpre⟩ => ((isWord_lxScrCommands e he).prefix_iff.1 hpre).2,
          fun hne => ⟨e, he, (isWord_lxScrCommands e he).prefix_iff.2 ⟨hword, hne⟩⟩⟩
      rw [hiff]
      by_cases h : u = firstWord u
      · rw [if_pos h]
        exact iff_of_false (by simp) (not_not_intro h)
      · rw [if_neg h]
        exact iff_of_true rfl h

/-- Two lists of events are the same if and only if each line does the same. -/
theorem numbered_eq_iff {P : Bytes → Prop} {g h : ℕ → Bytes → List ScriptEvent}
    (hle : ∀ lc u, (g lc u).length ≤ (h lc u).length) (heq : ∀ lc u, g lc u = h lc u ↔ P u)
    (lc : ℕ) (us : List Bytes) : numbered g lc us = numbered h lc us ↔ ∀ u ∈ us, P u := by
  have hlen : ∀ us lc, (numbered g lc us).length ≤ (numbered h lc us).length := fun us => by
    induction us with
    | nil => exact fun _ => le_rfl
    | cons u us ih =>
      intro lc
      rw [numbered, numbered, List.length_append, List.length_append]
      exact Nat.add_le_add (hle lc u) (ih (lc + 1))
  induction us generalizing lc with
  | nil => simp [numbered]
  | cons u us ih =>
    rw [List.forall_mem_cons, numbered, numbered]
    refine Iff.trans ?_ (and_congr (heq lc u) (ih (lc + 1)))
    constructor
    · intro happ
      -- no line does more than it should, so that a line that does less is not made up for
      have hsum := congrArg List.length happ
      rw [List.length_append, List.length_append] at hsum
      have hhead := hle lc u
      have htail := hlen us (lc + 1)
      exact List.append_inj happ (by omega)
    · rintro ⟨hu, hus⟩
      rw [hu, hus]

/-- What a script does. -/
theorem lxProcessScript_eq (fullScrName line s : Bytes) (n : ℕ) (hf : f handle = some (s.map .byte))
    (hs : ∀ l ∈ s.splitOn charLF, l.length < maxScrLineLen.toNat)
    (hline : line.length = maxScrLineLen.toNat) (hn : (lineTexts s).length < n) :
    lxProcessScript (some fullScrName) (some line) (some handle) f n =
      some (numbered (fun _ => lineEvents) 1 (scriptLines s)) := by
  have hloop := scriptLoop_eq f handle s line 0 n hs hline hn
  rwa [← hf, Function.update_eq_self] at hloop

/-- A script does what its lines ask for if and only if each of them is empty, a comment, or a
command and a blank. -/
theorem lxProcessScript_iff (fullScrName line s : Bytes) (handle : ULONG) (f : SioFiles) (n : ℕ)
    (hf : f handle = some (s.map .byte))
    (hs : ∀ l ∈ s.splitOn charLF, l.length < maxScrLineLen.toNat)
    (hline : line.length = maxScrLineLen.toNat) (hn : (lineTexts s).length < n) :
    lxProcessScript (some fullScrName) (some line) (some handle) f n =
        some (numbered askedEvents 1 (scriptLines s)) ↔
      ∀ u ∈ scriptLines s, WellFormedLine u := by
  rw [lxProcessScript_eq fullScrName line s n hf hs hline hn, Option.some.injEq]
  exact numbered_eq_iff length_lineEvents_le lineEvents_eq_iff 1 (scriptLines s)

end

/-- A script of a comment, an option and a blank line. -/
theorem lxProcessScript_comment :
    lxProcessScript (some [97]) (some (List.replicate 1000 0)) (some 3)
        (fun _ => some (([35, 97, 13, 10, 105, 110, 105, 116, 32, 120, 10, 10] : Bytes).map .byte))
        4 =
        some (numbered askedEvents 1
          (scriptLines [35, 97, 13, 10, 105, 110, 105, 116, 32, 120, 10, 10])) ↔
      ∀ u ∈ scriptLines [35, 97, 13, 10, 105, 110, 105, 116, 32, 120, 10, 10],
        WellFormedLine u :=
  lxProcessScript_iff [97] (List.replicate 1000 0)
    [35, 97, 13, 10, 105, 110, 105, 116, 32, 120, 10, 10] 3 _ 4 rfl (by decide)
    (List.length_replicate ..) (by decide)

/-- The line `init` calls `LX_init` with `NULL`, and the line `x` is not reported. -/
theorem lxProcessScript_init :
    lxProcessScript (some [97]) (some (List.replicate 1000 0)) (some 3)
        (fun _ => some (([105, 110, 105, 116, 10, 120, 10] : Bytes).map .byte)) 3 ≠
      some (numbered askedEvents 1 (scriptLines [105, 110, 105, 116, 10, 120, 10])) := by
  rw [lxProcessScript_eq [97] (List.replicate 1000 0) [105, 110, 105, 116, 10, 120, 10] 3 rfl
    (by decide) (List.length_replicate ..) (by decide)]
  decide

end LxApi32
