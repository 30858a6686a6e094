import LxApi32.Lib.Decimal
import LxApi32.Lib.Machine
import LxApi32.Lxafs.HardLink

/-!
# The link list in the attributes

`lxafs_rewrite_linklist` stores the list of names of an inode in the attributes of the master's
host file: the names in `LX_LB_1`, `LX_LB_2`, ... and their number in `LX_LC`.  Before that it
deletes as many attributes as the old `LX_LC` says.  `lxafs_get_fullfileinfo` reads the list back,
the last name first.  Writes and deletions are queued for the daemon, and reads wait for it, so they
see everything that was queued before.

* `sprintf_eq_simpleDSprintf` : the driver and the daemon mean the same attribute.
* `LinkListSys.roundTrip` : whatever lists were written before, the attributes hold the last one and
  nothing else, and it is read back as it was.
-/

namespace LxApi32

open CString Decimal

/-! ### Numbers as text -/

/-- The loop of `number` that fills `tmp`, the last digit first. -/
def numberTmp : ℕ → ℕ → Bytes
  | 0, _ => []
  | k + 1, num => if num = 0 then [] else digit (num % 10) :: numberTmp k (num / 10)

/-- `number` for the base 10 and `%d`. -/
def number (num : ℤ) : Bytes :=
  let tmp := if num = 0 then [digit 0] else numberTmp num.natAbs num.natAbs
  (if num < 0 then [45] else []) ++ tmp.reverse

/-- A format with every `%d` exchanged for a text. -/
def expandD (text : Bytes) : Bytes → Bytes
  | [] => []
  | [c] => [c]
  | c :: c' :: fmt =>
    if c = 37 ∧ c' = 100 then text ++ expandD text fmt else c :: expandD text (c' :: fmt)

/-- `sprintf(buf,fmt,d)` in the driver, for a format that has only `%d` in it. -/
def sprintf (fmt : Bytes) (d : ℤ) : Bytes := expandD (number d) fmt

/-- `simple_d_sprintf` in the daemon; `_itoa` gives the decimal text. -/
def simpleDSprintf (fmt : Bytes) (d : ℤ) : Bytes := expandD (decimalInt d) fmt

/-- The value of a digit, if it is a hexadecimal one. -/
def xdigitValue (c : UInt8) : Option ℕ :=
  if 48 ≤ c ∧ c ≤ 57 then some (c.toNat - 48)
  else if 65 ≤ c ∧ c ≤ 70 then some (c.toNat - 65 + 10)
  else if 97 ≤ c ∧ c ≤ 102 then some (c.toNat - 97 + 10)
  else none

/-- The loop of `simple_strtoul`. -/
def strtoulLoop (base : ℕ) : ULONG → Bytes → ULONG
  | result, [] => result
  | result, c :: cp =>
    match xdigitValue c with
    | some value =>
      if value < base then
        strtoulLoop base (result * BitVec.ofNat 32 base + BitVec.ofNat 32 value) cp
      else result
    | none => result

/-- `simple_strtoul(cp,0,0)` -/
def simpleStrtoul (cp : Bytes) : ULONG :=
  if cp.headD 0 = 48 then
    let cp := cp.tail
    if cp.headD 0 = 120 ∧ (xdigitValue (cp.tail.headD 0)).isSome then strtoulLoop 16 0 cp.tail
    else strtoulLoop 8 0 cp
  else strtoulLoop 10 0 cp

/-- `atoi` -/
def atoiInt (s : Bytes) : ℤ :=
  match (str s).dropWhile fun c => c = 32 || 9 ≤ c && c ≤ 13 with
  | [] => 0
  | c :: cp =>
    let digits := (if c = 45 ∨ c = 43 then cp else c :: cp).takeWhile fun c => 48 ≤ c && c ≤ 57
    if c = 45 then -value digits else value digits

/-- The `int` with the bits of a number. -/
def asInt (i : ℕ) : ℤ := (BitVec.ofNat 32 i).toInt

/-! ### The attributes of a file -/

/-- `LXEAN_LINKBYCOUNT`, `"LX_LC"` -/
def lxeanLinkbycount : Bytes := [76, 88, 95, 76, 67]

/-- `LXEAN_LINKEDBY`, `"LX_LB_%d"` -/
def lxeanLinkedby : Bytes := [76, 88, 95, 76, 66, 95, 37, 100]

/-- `LXEAN_LINKEDTO`, `"LX_LT"` -/
def lxeanLinkedto : Bytes := [76, 88, 95, 76, 84]

/-- `LXEAN_MODE`, `"LX_MODE"` -/
def lxeanMode : Bytes := [76, 88, 95, 77, 79, 68, 69]

/-- `LXEAN_UID`, `"LX_UID"` -/
def lxeanUid : Bytes := [76, 88, 95, 85, 73, 68]

/-- `LXEAN_GID`, `"LX_GID"` -/
def lxeanGid : Bytes := [76, 88, 95, 71, 73, 68]

/-- The name of the attribute for the link `i`. -/
def linkedBy (i : ℤ) : Bytes := sprintf lxeanLinkedby i

/-- The attributes of a file by their names. -/
abbrev EaStore := Bytes → Option Bytes

/-- What the host says about the size of the attributes of a file. -/
structure EaHost where
  /-- `cbList` of `FILESTATUS4` -/
  cbList : EaStore → ℕ
  /-- The list has a head of four bytes. -/
  cbList_gt : ∀ (e : EaStore) (n v : Bytes), e n = some v → 4 < cbList e

/-- `eahReadStringEA` with a buffer of `buflen` bytes, which it clears before it can fail. -/
def eahReadStringEA (host : EaHost) (e : EaStore) (eaName : Bytes) (buflen : ℕ) : Option Bytes :=
  if host.cbList e = 0 then some (List.replicate buflen 0)
  else
    match e eaName with
    | none => none
    | some v =>
      if v = [] ∨ buflen < v.length + 1 then none
      else some (v ++ List.replicate (buflen - v.length) 0)

/-- `eahWriteStringEA`; an empty value deletes the attribute. -/
def eahWriteStringEA (eaName eaval : Bytes) (e : EaStore) : EaStore :=
  Function.update e eaName (if str eaval = [] then none else some (str eaval))

/-- `eaPathDeleteOne` -/
def eaPathDeleteOne (eaName : Bytes) (e : EaStore) : EaStore := Function.update e eaName none

/-- What the host answers about a file, besides its attributes. -/
structure FileQuery where
  /-- `DosQueryPathInfo` -/
  rc : ULONG
  /-- `FILE_DIRECTORY` -/
  isDir : Bool
  /-- The entries of a directory: which of them are directories. -/
  entries : List Bool
  /-- `DosQueryPathInfo` for the link target succeeds. -/
  targetExists : Bytes → Bool

/-- What `CMD_GetFileInfo` finds out about a file. -/
structure GetFileInfo where
  /-- `linkName` -/
  linkName : Bytes
  /-- `num_subdirs` -/
  numSubdirs : ℕ
  /-- `num_files` -/
  numFiles : ℕ
  /-- `lc_count` -/
  lcCount : ℤ
  /-- `link_broken` -/
  linkBroken : Bool
  /-- `mode` -/
  mode : ℤ
  /-- `uid` -/
  uid : ℤ
  /-- `gid` -/
  gid : ℤ
  /-- `flags` -/
  flags : ULONG

/-- A cleared buffer of `LX_MAXPATH` bytes. -/
def clearedBuffer : Bytes := List.replicate lxMaxpath 0

/-- The part of `CMD_GetFileInfo` for a file with attributes. -/
def GetFileInfo.readLinkInfo (host : EaHost) (q : FileQuery) (fileName : Bytes) (e : EaStore)
    (pf : GetFileInfo) : GetFileInfo :=
  let linkName := (eahReadStringEA host e lxeanLinkedto lxMaxpath).getD clearedBuffer
  let filemask := (eahReadStringEA host e lxeanLinkbycount lxMaxpath).getD clearedBuffer
  let pf := { pf with linkName, lcCount := atoiInt filemask }
  if strcmp fileName linkName ≠ 0 then
    if q.targetExists linkName then pf
    else { pf with linkBroken := true, linkName := clearedBuffer }
  else { pf with linkName := clearedBuffer }

/-- `CMD_GetFileInfo` -/
def cmdGetFileInfo (host : EaHost) (q : FileQuery) (fileName : Bytes) (e : EaStore) :
    ULONG × GetFileInfo :=
  let pf : GetFileInfo := ⟨clearedBuffer, 0, 0, 0, false, 0, 0, 0, 0⟩
  if q.rc ≠ 0 then (q.rc, pf)
  else
    let pf :=
      if q.isDir then
        { pf with numSubdirs := q.entries.count true, numFiles := q.entries.count false }
      else pf
    let pf := if 4 < host.cbList e then pf.readLinkInfo host q fileName e else pf
    let pf :=
      match eahReadStringEA host e lxeanMode lxMaxpath with
      | some tmp => { pf with mode := atoiInt tmp, flags := pf.flags ||| 1 }
      | none => pf
    let pf :=
      match eahReadStringEA host e lxeanUid lxMaxpath with
      | some tmp => { pf with uid := atoiInt tmp, flags := pf.flags ||| 2 }
      | none => pf
    let pf :=
      match eahReadStringEA host e lxeanGid lxMaxpath with
      | some tmp => { pf with gid := atoiInt tmp, flags := pf.flags ||| 4 }
      | none => pf
    (0, pf)

/-! ### The driver -/

/-- A command that is queued for the daemon. -/
inductive EaCmd
  /-- `LX_DMN_CMD_EADELETE` -/
  | delete (eaName : Bytes)
  /-- `LX_DMN_CMD_EAWRITESTRING` -/
  | writeString (eaName eaval : Bytes)

/-- `CMD_EADelete` and `CMD_EAWriteString`, when they succeed. -/
def EaCmd.exec : EaCmd → EaStore → EaStore
  | .delete eaName => eaPathDeleteOne eaName
  | .writeString eaName eaval => eahWriteStringEA eaName eaval

/-- The attributes of the host files, and the commands that the daemon has not executed yet. -/
structure EaSys (κ : Type) where
  /-- The attributes. -/
  eas : κ → EaStore
  /-- The commands, with the files they are about. -/
  queue : List (κ × EaCmd)

namespace EaSys

variable {κ : Type} [DecidableEq κ] (key : PathName → κ) (host : EaHost)

/-- The daemon executes a command. -/
def exec (eas : κ → EaStore) (c : κ × EaCmd) : κ → EaStore :=
  Function.update eas c.1 (c.2.exec (eas c.1))

/-- The daemon executes all commands. -/
def flush (s : EaSys κ) : EaSys κ := ⟨s.queue.foldl exec s.eas, []⟩

/-- A command is queued. -/
def post (k : κ) (c : EaCmd) (s : EaSys κ) : EaSys κ := { s with queue := s.queue ++ [(k, c)] }

/-- `LX_EADELETE` -/
def eaDelete (fName : PathName) (eaName : Bytes) (s : EaSys κ) : EaSys κ :=
  s.post (key fName) (.delete eaName)

/-- `LX_EAWRITESTRING` -/
def eaWriteString (fName : PathName) (eaName buffer : Bytes) (bufLen : ℕ) (s : EaSys κ) : EaSys κ :=
  s.post (key fName) (.writeString eaName (strncpy [] buffer bufLen))

/-- What `LX_EAREADSTRING` leaves in the buffer.  It waits for the daemon, which executes all
commands that were queued before. -/
def eaReadString (e : EaStore) (eaName buffer : Bytes) (bufLen : ℕ) : Bytes :=
  match eahReadStringEA host e eaName bufLen with
  | some eaval => strncpy buffer eaval bufLen
  | none => buffer

/-- `lxafs_write_linkchild_info`, as far as attributes are concerned: the dummy file is replaced by
one without attributes, if it can be opened. -/
def writeLinkchildInfo (fname linkmaster : PathName) (opened : Bool) (s : EaSys κ) : EaSys κ :=
  if opened then
    { s with eas := Function.update s.eas (key fname) fun _ => none }.eaWriteString key fname
      lxeanLinkedto linkmaster.chars (linkmaster.chars.length + 1)
  else s

/-- The loop `while(i)` of `lxafs_rewrite_linklist`. -/
def deleteLinks (own : PathName) : ℕ → EaSys κ → EaSys κ
  | 0, s => s
  | i + 1, s => deleteLinks own i (s.eaDelete key own (linkedBy (asInt (i + 1))))

/-- The loop of `lxafs_rewrite_linklist` over the list, from the `int` `i` on.  `childs` says
whether the dummy files are written as well, and `opened` which of them can be opened. -/
def writeLinks (own : PathName) (childs : Bool) (opened : PathName → Bool) :
    ℕ → List PathName → EaSys κ → EaSys κ
  | _, [], s => s
  | i, lfo :: l, s =>
    let val := strncpy [] lfo.chars lxMaxpath
    let s := s.eaWriteString key own (linkedBy (asInt (i + 1))) val (strlen val + 1)
    let s := if childs then s.writeLinkchildInfo key lfo own (opened lfo) else s
    writeLinks own childs opened (i + 1) l s

/-- The number of links that `lxafs_rewrite_linklist` reads from the attributes. -/
def linkCount (e : EaStore) : ULONG :=
  simpleStrtoul (eaReadString host e lxeanLinkbycount [0] lxMaxpath)

/-- `LXAFS_DIRTY_LINKCHILDS` -/
def lxafsDirtyLinkchilds : ULONG := 2

/-- `lxafs_rewrite_linklist` for the list `l` of the inode with the master name `own`.  `alloc` is
the result of `LX_alloc_objects`. -/
def rewriteLinklist (own : PathName) (l : List PathName) (dirtyFlag alloc : ULONG)
    (opened : PathName → Bool) (s : EaSys κ) : ULONG × EaSys κ :=
  if alloc ≠ 0 then (alloc, s)
  else
    let s := s.flush
    let i := linkCount host (s.eas (key own))
    let s := s.eaDelete key own lxeanLinkbycount
    let s := deleteLinks key own i.toNat s
    let s := writeLinks key own (dirtyFlag &&& lxafsDirtyLinkchilds ≠ 0) opened 0 l s
    let i := asInt l.length
    if i ≠ 0 then
      (0, s.eaWriteString key own lxeanLinkbycount (number i) ((number i).length + 1))
    else (0, s)

/-- What `lxafs_get_fullfileinfo` returns. -/
structure LxafsFileinfo where
  /-- What was copied from the answer of `LX_GETFILEINFO`. -/
  info : GetFileInfo
  /-- The names in `linkinfo.list`. -/
  list : List Bytes

/-- The memory for `lxafs_get_fullfileinfo`. -/
structure FileinfoMemory where
  /-- `lxafs_alloc_fileinfo` succeeds. -/
  fileinfo : Bool
  /-- `lxafs_alloc_linkinfo` succeeds for the link `lc`. -/
  linkinfo : ℕ → Bool
  /-- What that memory held before. -/
  junk : ℕ → Bytes

/-- The loop `while(lc)` of `lxafs_get_fullfileinfo`. -/
def readLinks (e : EaStore) (mem : FileinfoMemory) : ℕ → List Bytes → Option (List Bytes)
  | 0, list => some list
  | lc + 1, list =>
    if mem.linkinfo (lc + 1) then
      let name :=
        str (eaReadString host e (linkedBy (asInt (lc + 1))) (mem.junk (lc + 1)) lxMaxpath)
      readLinks e mem lc (if 0 < name.length then name :: list else list)
    else none

/-- `lxafs_get_fullfileinfo`; `LX_GETFILEINFO` waits for the daemon. -/
def getFullfileinfo (q : FileQuery) (name : PathName) (mem : FileinfoMemory) (s : EaSys κ) :
    Option LxafsFileinfo × EaSys κ :=
  if mem.fileinfo then
    let s := s.flush
    let e := s.eas (key name)
    let fs := cmdGetFileInfo host q name.chars e
    if fs.1 ≠ 0 then (none, s)
    else
      let info := { fs.2 with linkName := strncpy [] fs.2.linkName lxMaxpath }
      ((readLinks host e mem (BitVec.ofInt 32 info.lcCount).toNat []).map fun list =>
        ⟨info, list⟩, s)
  else (none, s)

end EaSys

/-! ### Formatting and parsing -/

theorem reverse_numberTmp {n k : ℕ} (h0 : 0 < n) (h : n ≤ k) :
    (numberTmp k n).reverse = decimal n := by
  induction k generalizing n with
  | zero => omega
  | succ k ih =>
    rw [numberTmp, if_neg (by omega), List.reverse_cons]
    by_cases hlt : n < 10
    · have hzero (k : ℕ) : numberTmp k 0 = [] := by cases k <;> rfl
      rw [Nat.div_eq_of_lt hlt, hzero, Nat.mod_eq_of_lt hlt, decimal_of_lt hlt]
      rfl
    · rw [ih (by omega) (by omega), ← decimal_of_le (by omega)]

/-- The driver's `%d` prints what `_itoa` prints. -/
theorem number_eq (d : ℤ) : number d = decimalInt d := by
  cases d with
  | ofNat n =>
    rw [number, decimalInt, if_neg (by simp)]
    by_cases h : n = 0
    · rw [h]
      rfl
    · rw [if_neg (by simpa using h)]
      exact reverse_numberTmp (Nat.pos_of_ne_zero h) le_rfl
  | negSucc n =>
    rw [number, decimalInt, if_pos (Int.negSucc_lt_zero n), if_neg (Int.negSucc_ne_zero n)]
    exact congrArg _ (reverse_numberTmp (Nat.succ_pos n) le_rfl)

/-- A character that is not part of a `%d` stays. -/
theorem expandD_cons_of_not {text : Bytes} {c : UInt8} {fmt : Bytes}
    (h : ¬ (c = 37 ∧ fmt.headD 0 = 100)) : expandD text (c :: fmt) = c :: expandD text fmt := by
  cases fmt with
  | nil => rfl
  | cons c' fmt => exact if_neg h

/-- The driver and the daemon mean the same attribute. -/
theorem sprintf_eq_simpleDSprintf (fmt : Bytes) (d : ℤ) : sprintf fmt d = simpleDSprintf fmt d := by
  rw [sprintf, simpleDSprintf, number_eq]

theorem linkedBy_eq (i : ℤ) : linkedBy i = [76, 88, 95, 76, 66, 95] ++ decimalInt i := by
  rw [linkedBy, sprintf, number_eq, lxeanLinkedby]
  simp [expandD]

theorem linkedBy_inj {i j : ℤ} : linkedBy i = linkedBy j ↔ i = j := by
  rw [linkedBy_eq, linkedBy_eq, List.append_right_inj, decimalInt_inj]

theorem linkedBy_ne_linkbycount (i : ℤ) : linkedBy i ≠ lxeanLinkbycount := by
  rw [linkedBy_eq, lxeanLinkbycount]
  simp

theorem asInt_of_lt {i : ℕ} (h : i < 2 ^ 31) : asInt i = i := by
  have hnat : (BitVec.ofNat 32 i).toNat = i := by
    rw [BitVec.toNat_ofNat, Nat.mod_eq_of_lt (by omega)]
  rw [asInt, BitVec.toInt_eq_toNat_cond, hnat, if_pos (by omega)]

theorem xdigitValue_digit {d : ℕ} (h : d < 10) : xdigitValue (digit d) = some d := by
  have hnat := toNat_digit h
  rw [xdigitValue, if_pos, hnat, Nat.add_sub_cancel_left]
  rw [UInt8.le_iff_toNat_le, UInt8.le_iff_toNat_le, hnat]
  exact ⟨Nat.le_add_right .., by simp; omega⟩

/-- The loop of `simple_strtoul` reads the digits up to the end of the string. -/
theorem strtoulLoop_digits {s : Bytes} (hs : IsDigits s) (n : ℕ) (t : Bytes) :
    strtoulLoop 10 (BitVec.ofNat 32 n) (s ++ 0 :: t) = BitVec.ofNat 32 (s.foldl shift n) ∧
      strtoulLoop 10 (BitVec.ofNat 32 n) s = BitVec.ofNat 32 (s.foldl shift n) := by
  induction s generalizing n with
  | nil => exact ⟨rfl, rfl⟩
  | cons c s ih =>
    obtain ⟨d, hd, rfl⟩ := hs c List.mem_cons_self
    have hstep : BitVec.ofNat 32 n * BitVec.ofNat 32 10 + BitVec.ofNat 32 d =
        BitVec.ofNat 32 (shift n (digit d)) := by
      rw [shift_digit hd, ← BitVec.ofNat_mul, ← BitVec.ofNat_add, Nat.mul_comm]
    have ih := ih (fun c hc => hs c (List.mem_cons_of_mem _ hc)) (shift n (digit d))
    rw [List.cons_append, strtoulLoop, strtoulLoop, xdigitValue_digit hd]
    simp only [if_pos hd, hstep, List.foldl_cons]
    exact ih

/-- `simple_strtoul` reads what `%d` prints. -/
theorem simpleStrtoul_decimal {b : Bytes} {n : ℕ} (h0 : 0 < n) (hb : str b = decimal n) :
    simpleStrtoul b = BitVec.ofNat 32 n := by
  obtain ⟨d, t, ⟨hpos, hlt⟩, hcons⟩ := decimal_eq_cons h0
  have hhead : b.headD 0 ≠ 48 := by
    have hd : b.headD 0 = digit d := by
      rw [str_eq_head, hcons] at hb
      split_ifs at hb
      exact (List.cons.inj hb).1
    rw [hd]
    intro h
    have := toNat_digit hlt
    rw [h] at this
    have h48 : (48 : UInt8).toNat = 48 := rfl
    omega
  have hread := strtoulLoop_digits (isDigits_decimal n) 0
  have hvalue : (decimal n).foldl shift 0 = n := value_decimal n
  rw [simpleStrtoul, if_neg hhead]
  rcases eq_str_append b with h | ⟨t, h⟩
  · rw [h, hb]
    exact (hread []).2.trans (congrArg _ hvalue)
  · rw [h, hb]
    exact (hread t).1.trans (congrArg _ hvalue)

/-- `atoi` reads what `%d` prints. -/
theorem atoiInt_decimal {b : Bytes} {n : ℕ} (hb : str b = decimal n) : atoiInt b = n := by
  have hdigit (c : UInt8) (hc : c ∈ decimal n) : 48 ≤ c ∧ c ≤ 57 := by
    obtain ⟨d, hd, rfl⟩ := isDigits_decimal n c hc
    rw [UInt8.le_iff_toNat_le, UInt8.le_iff_toNat_le, toNat_digit hd]
    exact ⟨Nat.le_add_right .., by simp; omega⟩
  have hall : (decimal n).takeWhile (fun c => 48 ≤ c && c ≤ 57) = decimal n := by
    rw [List.takeWhile_eq_self_iff]
    intro c hc
    simpa using hdigit c hc
  cases hcons : decimal n with
  | nil => exact absurd hcons (decimal_ne_nil n)
  | cons c t =>
    have hc := hdigit c (hcons ▸ List.mem_cons_self)
    rw [UInt8.le_iff_toNat_le, UInt8.le_iff_toNat_le] at hc
    -- a digit is neither a blank nor a sign
    have hne (x : UInt8) (hx : x.toNat < 48) : c ≠ x := by
      rintro rfl
      exact absurd hc.1 (Nat.not_le.2 hx)
    have hblank : (c == 32 || 9 ≤ c && c ≤ 13) = false := by
      rw [Bool.or_eq_false_iff, Bool.and_eq_false_iff]
      refine ⟨beq_eq_false_iff_ne.2 (hne 32 (by decide)), .inr (decide_eq_false ?_)⟩
      rw [UInt8.le_iff_toNat_le]
      exact fun h => absurd (hc.1.trans h) (by decide)
    rw [atoiInt, hb, hcons, List.dropWhile_cons_of_neg (by simpa using hblank)]
    simp only [hne 45 (by decide), hne 43 (by decide), or_self, ↓reduceIte]
    rw [← hcons, hall, value_decimal]

/-! ### What the daemon will have done -/

namespace EaSys

variable {κ : Type} [DecidableEq κ] {key : PathName → κ} {host : EaHost} {s : EaSys κ}

/-- The attributes of a file when all queued commands are executed. -/
def view (s : EaSys κ) (k : κ) : EaStore := s.flush.eas k

@[simp] theorem view_flush (s : EaSys κ) : s.flush.view = s.view := rfl

@[simp] theorem eas_flush (s : EaSys κ) : s.flush.eas = s.view := rfl

theorem view_post (k : κ) (c : EaCmd) (s : EaSys κ) :
    (s.post k c).view = Function.update s.view k (c.exec (s.view k)) := by
  funext k'
  rw [view, flush, post]
  simp only [List.foldl_append, List.foldl_cons, List.foldl_nil]
  rfl

/-- What is executed for a file depends on its own attributes alone. -/
theorem foldl_exec_congr {eas eas' : κ → EaStore} {k : κ} (h : eas k = eas' k)
    (q : List (κ × EaCmd)) : q.foldl exec eas k = q.foldl exec eas' k := by
  induction q generalizing eas eas' with
  | nil => exact h
  | cons c q ih =>
    apply ih
    by_cases hk : k = c.1
    · subst hk
      rw [exec, exec, Function.update_self, Function.update_self, h]
    · rw [exec, exec, Function.update_of_ne hk, Function.update_of_ne hk, h]

theorem view_eaDelete (fName : PathName) (eaName : Bytes) (s : EaSys κ) :
    (s.eaDelete key fName eaName).view =
      Function.update s.view (key fName) (Function.update (s.view (key fName)) eaName none) :=
  view_post ..

/-- A string that is not empty is written as it is. -/
theorem view_eaWriteString {fName : PathName} {eaName v buffer : Bytes} {bufLen : ℕ}
    (hv : str buffer = v) (hne : v ≠ []) (hlen : v.length < bufLen) (s : EaSys κ) :
    (s.eaWriteString key fName eaName buffer bufLen).view =
      Function.update s.view (key fName)
        (Function.update (s.view (key fName)) eaName (some v)) := by
  have hstr : str (strncpy [] buffer bufLen) = v := by
    rw [str_strncpy (by rw [strlen, hv]; exact hlen), hv]
  rw [eaWriteString, view_post, EaCmd.exec, eahWriteStringEA, hstr, if_neg hne]

/-- The dummy files of other names. -/
theorem view_writeLinkchildInfo {fname own : PathName} (hk : key fname ≠ key own) (opened : Bool)
    (s : EaSys κ) :
    (s.writeLinkchildInfo key fname own opened).view (key own) = s.view (key own) := by
  cases opened with
  | false => rfl
  | true =>
    rw [writeLinkchildInfo, if_pos rfl, eaWriteString, view_post, Function.update_of_ne hk.symm]
    exact foldl_exec_congr (Function.update_of_ne hk.symm ..) _

/-- The names of the attributes for the first `n` links. -/
def linkNames (n : ℕ) : List Bytes := (List.range n).map fun i => linkedBy (asInt (i + 1))

theorem view_deleteLinks (own : PathName) (n : ℕ) (s : EaSys κ) (name : Bytes) :
    (deleteLinks key own n s).view (key own) name =
      if name ∈ linkNames n then none else s.view (key own) name := by
  induction n generalizing s with
  | zero => rfl
  | succ n ih =>
    have hmem : name ∈ linkNames (n + 1) ↔
        name ∈ linkNames n ∨ name = linkedBy (asInt (n + 1)) := by
      rw [linkNames, List.range_succ, List.map_append, List.mem_append, List.map_singleton,
        List.mem_singleton, linkNames]
    rw [deleteLinks, ih, view_eaDelete, Function.update_self]
    by_cases hn : name ∈ linkNames n
    · rw [if_pos hn, if_pos (hmem.2 (.inl hn))]
    · rw [if_neg hn]
      by_cases heq : name = linkedBy (asInt (n + 1))
      · rw [if_pos (hmem.2 (.inr heq)), heq, Function.update_self]
      · rw [if_neg (mt hmem.1 (not_or.2 ⟨hn, heq⟩)), Function.update_of_ne heq]

/-- The names of the list are written in order. -/
theorem view_writeLinks {own : PathName} {childs : Bool} {opened : PathName → Bool}
    {l : List PathName} (hl : ∀ n ∈ l, n.chars ≠ [])
    (hchilds : childs → ∀ n ∈ l, key n ≠ key own) {i : ℕ} (hi : i + l.length < 2 ^ 31)
    (s : EaSys κ) :
    (∀ name, (∀ j : ℕ, name ≠ linkedBy j) →
      (writeLinks key own childs opened i l s).view (key own) name = s.view (key own) name) ∧
    ∀ j : ℕ, (writeLinks key own childs opened i l s).view (key own) (linkedBy j) =
      if i < j ∧ j ≤ i + l.length then (l[j - i - 1]?).map PathName.chars
      else s.view (key own) (linkedBy j) := by
  induction l generalizing i s with
  | nil =>
    refine ⟨fun _ _ => rfl, fun j => ?_⟩
    rw [if_neg (by simp)]
    rfl
  | cons lfo l ih =>
    rw [List.length_cons] at hi
    have hval : str (strncpy [] lfo.chars lxMaxpath) = lfo.chars := by
      have hlt : strlen lfo.chars < lxMaxpath := by
        rw [strlen, lfo.noNul.str_eq]
        exact lfo.lt
      rw [str_strncpy hlt, lfo.noNul.str_eq]
    -- the first name
    let val := strncpy [] lfo.chars lxMaxpath
    let s₁ := s.eaWriteString key own (linkedBy (asInt (i + 1))) val (strlen val + 1)
    let s₂ := if childs then s₁.writeLinkchildInfo key lfo own (opened lfo) else s₁
    have hwrite : s₂.view (key own) =
        Function.update (s.view (key own)) (linkedBy (i + 1 : ℕ)) (some lfo.chars) := by
      have h₁ : s₁.view (key own) =
          Function.update (s.view (key own)) (linkedBy (i + 1 : ℕ)) (some lfo.chars) := by
        have hlen : lfo.chars.length < strlen val + 1 := by
          rw [strlen, hval]
          exact Nat.lt_succ_self _
        rw [view_eaWriteString hval (hl lfo List.mem_cons_self) hlen, Function.update_self,
          asInt_of_lt (by omega)]
      by_cases hc : childs
      · rw [← h₁, ← view_writeLinkchildInfo (hchilds hc lfo List.mem_cons_self) (opened lfo) s₁]
        exact congrArg (fun s => view s (key own)) (if_pos hc)
      · rw [← h₁]
        exact congrArg (fun s => view s (key own)) (if_neg hc)
    obtain ⟨hother, hlinks⟩ := ih (fun n hn => hl n (List.mem_cons_of_mem _ hn))
      (fun hc n hn => hchilds hc n (List.mem_cons_of_mem _ hn)) (by omega : i + 1 + l.length < _) s₂
    have hunfold : writeLinks key own childs opened i (lfo :: l) s =
        writeLinks key own childs opened (i + 1) l s₂ := rfl
    rw [hunfold]
    constructor
    · intro name hname
      rw [hother name hname, hwrite, Function.update_of_ne (hname _)]
    · intro j
      rw [hlinks j, hwrite, List.length_cons]
      by_cases hj : j = i + 1
      · rw [if_neg (by omega), if_pos (by omega), hj, Function.update_self,
          show i + 1 - i - 1 = 0 by omega]
        rfl
      · have hne : linkedBy (j : ℤ) ≠ linkedBy (i + 1 : ℕ) := by
          rw [ne_eq, linkedBy_inj]
          exact_mod_cast hj
        rw [Function.update_of_ne hne]
        by_cases hin : i + 1 < j ∧ j ≤ i + 1 + l.length
        · rw [if_pos hin, if_pos (by omega), show j - i - 1 = (j - (i + 1) - 1) + 1 by omega,
            List.getElem?_cons_succ]
        · rw [if_neg hin, if_neg (by omega)]

/-! ### The contents of the attributes -/

/-- The attributes of a file hold the list `l` and no other links. -/
structure Holds (l : List PathName) (e : EaStore) : Prop where
  count : e lxeanLinkbycount = if l = [] then none else some (decimal l.length)
  links : ∀ j : ℕ, e (linkedBy j) = if 0 < j then (l[j - 1]?).map PathName.chars else none

/-- The links in the attributes are numbered from `1` to the count in `LX_LC`. -/
def Within (host : EaHost) (e : EaStore) : Prop :=
  ∀ j : ℕ, e (linkedBy j) ≠ none → 0 < j ∧ (j : ℤ) ≤ (linkCount host e).toInt

/-- The text of an `int` fits every buffer. -/
theorem length_decimal_lt {n : ℕ} (hn : n < 2 ^ 31) : (decimal n).length < lxMaxpath := by
  have hten : (Nat.toDigits 10 n).length ≤ 10 :=
    (Nat.length_toDigits_le_iff (by omega) (by omega)).2 (by omega)
  rw [decimal, List.length_map, lxMaxpath]
  omega

/-- A string attribute that fits the buffer is read as it is. -/
theorem eahReadStringEA_of_some {e : EaStore} {eaName v : Bytes} (hv : NoNul v) (hne : v ≠ [])
    (hlt : v.length < lxMaxpath) (he : e eaName = some v) :
    ∃ b, eahReadStringEA host e eaName lxMaxpath = some b ∧ str b = v := by
  have hcb := host.cbList_gt e _ _ he
  refine ⟨v ++ List.replicate (lxMaxpath - v.length) 0, ?_, ?_⟩
  · rw [eahReadStringEA, if_neg (by omega), he]
    simp only
    rw [if_neg]
    exact not_or.2 ⟨hne, by omega⟩
  · obtain ⟨k, hk⟩ := Nat.exists_eq_succ_of_ne_zero (Nat.sub_ne_zero_of_lt hlt)
    rw [hk, List.replicate_succ, str_append_zero hv]

theorem str_eaReadString {e : EaStore} {eaName v : Bytes} (hv : NoNul v) (hne : v ≠ [])
    (hlt : v.length < lxMaxpath) (he : e eaName = some v) (buffer : Bytes) :
    str (eaReadString host e eaName buffer lxMaxpath) = v := by
  obtain ⟨b, hread, hb⟩ : ∃ b, eahReadStringEA host e eaName lxMaxpath = some b ∧ str b = v :=
    eahReadStringEA_of_some hv hne hlt he
  rw [eaReadString, hread]
  simp only
  rw [str_strncpy (by rw [strlen, hb]; exact hlt), hb]

/-- The count that is read is the number of links. -/
theorem Holds.linkCount {l : List PathName} {e : EaStore} (h : Holds l e) (hne : l ≠ [])
    (hlen : l.length < 2 ^ 31) : linkCount host e = BitVec.ofNat 32 l.length := by
  have hcount := h.count
  rw [if_neg hne] at hcount
  exact simpleStrtoul_decimal (List.length_pos_of_ne_nil hne)
    (str_eaReadString (noNul_decimal _) (decimal_ne_nil _) (length_decimal_lt hlen) hcount _)

/-- A stored list is numbered from `1` on. -/
theorem Holds.within {l : List PathName} {e : EaStore} (h : Holds l e) (hlen : l.length < 2 ^ 31) :
    Within host e := by
  intro j hj
  rw [h.links j] at hj
  split_ifs at hj with h0
  · refine ⟨h0, ?_⟩
    have hle : j ≤ l.length := by
      by_contra hgt
      apply hj
      rw [List.getElem?_eq_none (by omega)]
      rfl
    have hne : l ≠ [] := List.ne_nil_of_length_pos (by omega)
    rw [h.linkCount hne hlen]
    have hint := asInt_of_lt hlen
    rw [asInt] at hint
    rw [hint]
    exact_mod_cast hle
  · exact absurd rfl hj

theorem linkbycount_ne_linkedBy (j : ℤ) : lxeanLinkbycount ≠ linkedBy j :=
  (linkedBy_ne_linkbycount j).symm

/-- The deletions of `lxafs_rewrite_linklist` leave no link, if the old ones were numbered up to the
old count. -/
theorem holds_nil_deleteLinks {own : PathName} (hold : Within host (s.view (key own))) :
    Holds [] ((deleteLinks key own (EaSys.linkCount host (s.view (key own))).toNat
      (s.flush.eaDelete key own lxeanLinkbycount)).view (key own)) := by
  let i := EaSys.linkCount host (s.view (key own))
  let s₁ := deleteLinks key own i.toNat (s.flush.eaDelete key own lxeanLinkbycount)
  change Holds [] (s₁.view (key own))
  have hdel (name : Bytes) : s₁.view (key own) name =
      if name ∈ linkNames i.toNat then none
      else Function.update (s.view (key own)) lxeanLinkbycount none name := by
    rw [view_deleteLinks, view_eaDelete, Function.update_self, view_flush]
  refine ⟨?_, ?_⟩
  · have hnames : lxeanLinkbycount ∉ linkNames i.toNat := by
      intro h
      obtain ⟨j, -, hj⟩ := List.mem_map.1 h
      exact linkbycount_ne_linkedBy _ hj.symm
    rw [hdel, if_neg hnames, Function.update_self, if_pos rfl]
  · intro j
    rw [List.getElem?_nil, Option.map_none, ite_self, hdel,
      Function.update_of_ne (linkbycount_ne_linkedBy j).symm]
    by_cases hj : s.view (key own) (linkedBy j) = none
    · rw [hj, ite_self]
    · obtain ⟨h0, hle⟩ := hold j hj
      rw [if_pos]
      have hi : (j : ℤ) ≤ i.toInt := hle
      rw [BitVec.toInt_eq_toNat_cond] at hi
      have hlt := i.isLt
      have hj' : j < 2 ^ 31 ∧ j ≤ i.toNat := by
        split_ifs at hi <;> omega
      refine List.mem_map.2 ⟨j - 1, List.mem_range.2 (by omega), ?_⟩
      rw [Nat.sub_add_cancel h0, asInt_of_lt hj'.1]

/-- The loop that writes the list writes its links, and not yet their number. -/
theorem links_writeLinks {own : PathName} {l : List PathName} {childs : Bool}
    {opened : PathName → Bool} (hs : Holds [] (s.view (key own))) (hl : ∀ n ∈ l, n.chars ≠ [])
    (hlen : l.length < 2 ^ 31) (hchilds : childs = true → ∀ n ∈ l, key n ≠ key own) :
    (writeLinks key own childs opened 0 l s).view (key own) lxeanLinkbycount = none ∧
    ∀ j : ℕ, (writeLinks key own childs opened 0 l s).view (key own) (linkedBy j) =
      if 0 < j then (l[j - 1]?).map PathName.chars else none := by
  have hlt : 0 + l.length < 2 ^ 31 := by omega
  refine ⟨?_, ?_⟩
  · rw [(view_writeLinks hl hchilds hlt s).1 _ fun j => linkbycount_ne_linkedBy j, hs.count,
      if_pos rfl]
  · intro j
    rw [(view_writeLinks hl hchilds hlt s).2 j, hs.links j, Nat.sub_zero, List.getElem?_nil,
      Option.map_none, ite_self]
    by_cases h0 : 0 < j
    · by_cases hle : j ≤ 0 + l.length
      · rw [if_pos ⟨h0, hle⟩, if_pos h0]
      · rw [if_neg fun h => hle h.2, if_pos h0, List.getElem?_eq_none (by omega)]
        rfl
    · rw [if_neg fun h => h0 h.1, if_neg h0]

/-- **What a call of `lxafs_rewrite_linklist` leaves behind** is the list, if the old links were
numbered up to the old count. -/
theorem holds_rewriteLinklist {own : PathName} {l : List PathName} {dirtyFlag : ULONG}
    {opened : PathName → Bool} (hold : Within host (s.view (key own)))
    (hl : ∀ n ∈ l, n.chars ≠ []) (hlen : l.length < 2 ^ 31)
    (hchilds : dirtyFlag &&& lxafsDirtyLinkchilds ≠ 0 → ∀ n ∈ l, key n ≠ key own) :
    Holds l ((rewriteLinklist key host own l dirtyFlag 0 opened s).2.view (key own)) := by
  let i := EaSys.linkCount host (s.view (key own))
  let s₁ := deleteLinks key own i.toNat (s.flush.eaDelete key own lxeanLinkbycount)
  let s₂ := writeLinks key own (dirtyFlag &&& lxafsDirtyLinkchilds ≠ 0) opened 0 l s₁
  obtain ⟨hcount, hlinks⟩ : s₂.view (key own) lxeanLinkbycount = none ∧
      ∀ j : ℕ, s₂.view (key own) (linkedBy j) =
        if 0 < j then (l[j - 1]?).map PathName.chars else none :=
    links_writeLinks (holds_nil_deleteLinks hold) hl hlen fun hc => hchilds (of_decide_eq_true hc)
  have hnum : asInt l.length = l.length := asInt_of_lt hlen
  have hunfold : (rewriteLinklist key host own l dirtyFlag 0 opened s).2 =
      if asInt l.length ≠ 0 then
        s₂.eaWriteString key own lxeanLinkbycount (number (asInt l.length))
          ((number (asInt l.length)).length + 1)
      else s₂ := by
    rw [rewriteLinklist, if_neg (by simp)]
    simp only
    split_ifs <;> rfl
  rw [hunfold, hnum]
  by_cases hnil : l = []
  · rw [if_neg (by simp [hnil])]
    exact ⟨by rw [hcount, if_pos hnil], hlinks⟩
  · have hpos : (l.length : ℤ) ≠ 0 := by simpa using hnil
    have hnumber : number (l.length : ℤ) = decimal l.length := number_eq _
    rw [if_pos hpos, hnumber, view_eaWriteString (noNul_decimal _).str_eq (decimal_ne_nil _)
      (Nat.lt_succ_self _), Function.update_self]
    refine ⟨by rw [Function.update_self, if_neg hnil], ?_⟩
    intro j
    rw [Function.update_of_ne (linkbycount_ne_linkedBy j).symm]
    exact hlinks j

/-- Another attribute stays when one is written. -/
theorem view_eaWriteString_of_ne {own : PathName} {name eaName : Bytes} (h : name ≠ eaName)
    (buffer : Bytes) (bufLen : ℕ) (s : EaSys κ) :
    (s.eaWriteString key own eaName buffer bufLen).view (key own) name = s.view (key own) name := by
  rw [eaWriteString, view_post, Function.update_self]
  exact Function.update_of_ne h ..

theorem view_writeLinks_of_ne {own : PathName} {name : Bytes}
    (hname : ∀ i, name ≠ linkedBy i) {childs : Bool} {opened : PathName → Bool}
    {l : List PathName} (hchilds : childs = true → ∀ n ∈ l, key n ≠ key own) (i : ℕ) (s : EaSys κ) :
    (writeLinks key own childs opened i l s).view (key own) name = s.view (key own) name := by
  induction l generalizing i s with
  | nil => rfl
  | cons lfo l ih =>
    rw [writeLinks, ih fun hc n hn => hchilds hc n (List.mem_cons_of_mem _ hn)]
    by_cases hc : childs = true
    · rw [if_pos hc, view_writeLinkchildInfo (hchilds hc lfo List.mem_cons_self),
        view_eaWriteString_of_ne (hname _)]
    · rw [if_neg hc, view_eaWriteString_of_ne (hname _)]

/-- `lxafs_rewrite_linklist` changes no attribute that has nothing to do with links. -/
theorem view_rewriteLinklist_of_ne {own : PathName} {name : Bytes}
    (hcount : name ≠ lxeanLinkbycount) (hname : ∀ i, name ≠ linkedBy i) {l : List PathName}
    {dirtyFlag alloc : ULONG} {opened : PathName → Bool}
    (hchilds : dirtyFlag &&& lxafsDirtyLinkchilds ≠ 0 → ∀ n ∈ l, key n ≠ key own) (s : EaSys κ) :
    (rewriteLinklist key host own l dirtyFlag alloc opened s).2.view (key own) name =
      s.view (key own) name := by
  have hnames (n : ℕ) : name ∉ linkNames n := by
    intro h
    obtain ⟨j, -, hj⟩ := List.mem_map.1 h
    exact hname _ hj.symm
  have hwritten : (writeLinks key own (dirtyFlag &&& lxafsDirtyLinkchilds ≠ 0) opened 0 l
      (deleteLinks key own (linkCount host (s.flush.eas (key own))).toNat
        (s.flush.eaDelete key own lxeanLinkbycount))).view (key own) name =
      s.view (key own) name := by
    rw [view_writeLinks_of_ne hname fun hc => hchilds (of_decide_eq_true hc), view_deleteLinks,
      if_neg (hnames _), view_eaDelete, Function.update_self, Function.update_of_ne hcount,
      view_flush]
  unfold rewriteLinklist
  split_ifs with halloc
  · rfl
  · dsimp only
    split_ifs
    · exact (view_eaWriteString_of_ne hcount _ _ _).trans hwritten
    · exact hwritten

/-! ### Reading the list back -/

/-- The loop of `lxafs_get_fullfileinfo`, which puts the names it reads in front. -/
theorem readLinks_eq {l : List PathName} {e : EaStore} {mem : FileinfoMemory} (h : Holds l e)
    (hl : ∀ n ∈ l, n.chars ≠ []) (hlen : l.length < 2 ^ 31) (hmem : ∀ lc, mem.linkinfo lc)
    {n : ℕ} (hn : n ≤ l.length) (list : List Bytes) :
    readLinks host e mem n list = some ((l.take n).map PathName.chars ++ list) := by
  induction n generalizing list with
  | zero => rfl
  | succ n ih =>
    have hget : l[n]? = some l[n] := List.getElem?_eq_getElem hn
    have hea : e (linkedBy (asInt (n + 1))) = some l[n].chars := by
      rw [asInt_of_lt (by omega), h.links, if_pos (Nat.succ_pos n), Nat.add_sub_cancel, hget]
      rfl
    have hne := hl l[n] (List.getElem_mem hn)
    have hname : str (eaReadString host e (linkedBy (asInt (n + 1))) (mem.junk (n + 1)) lxMaxpath) =
        l[n].chars := str_eaReadString l[n].noNul hne l[n].lt hea _
    rw [readLinks, if_pos (hmem _)]
    simp only [hname]
    rw [if_pos (List.length_pos_of_ne_nil hne), ih (by omega), List.take_add_one, hget,
      Option.toList_some, List.map_append, List.append_assoc]
    rfl

/-- The count in the answer of `CMD_GetFileInfo`. -/
theorem lcCount_cmdGetFileInfo {q : FileQuery} (hq : q.rc = 0) (fileName : Bytes) (e : EaStore) :
    (cmdGetFileInfo host q fileName e).1 = 0 ∧
      (cmdGetFileInfo host q fileName e).2.lcCount =
        if 4 < host.cbList e then
          atoiInt ((eahReadStringEA host e lxeanLinkbycount lxMaxpath).getD clearedBuffer)
        else 0 := by
  rw [cmdGetFileInfo, if_neg (not_not.2 hq)]
  refine ⟨rfl, ?_⟩
  have hlinks (pf : GetFileInfo) : (pf.readLinkInfo host q fileName e).lcCount =
      atoiInt ((eahReadStringEA host e lxeanLinkbycount lxMaxpath).getD clearedBuffer) := by
    rw [GetFileInfo.readLinkInfo]
    simp only
    split_ifs <;> rfl
  cases eahReadStringEA host e lxeanMode lxMaxpath <;>
    cases eahReadStringEA host e lxeanUid lxMaxpath <;>
    cases eahReadStringEA host e lxeanGid lxMaxpath <;>
    (simp only; split_ifs <;> first | exact hlinks _ | rfl)

theorem Holds.lcCount {l : List PathName} {e : EaStore} {q : FileQuery} (h : Holds l e)
    (hlen : l.length < 2 ^ 31) (hq : q.rc = 0) (fileName : Bytes) :
    (cmdGetFileInfo host q fileName e).2.lcCount = l.length := by
  rw [(lcCount_cmdGetFileInfo hq fileName e).2]
  have hcount := h.count
  by_cases hnil : l = []
  · rw [if_pos hnil] at hcount
    split_ifs with hcb
    · rw [eahReadStringEA, if_neg (by omega), hcount, hnil]
      rfl
    · rw [hnil]
      rfl
  · rw [if_neg hnil] at hcount
    obtain ⟨b, hread, hb⟩ : ∃ b,
        eahReadStringEA host e lxeanLinkbycount lxMaxpath = some b ∧ str b = decimal l.length :=
      eahReadStringEA_of_some (noNul_decimal _) (decimal_ne_nil _) (length_decimal_lt hlen) hcount
    rw [if_pos (host.cbList_gt e _ _ hcount), hread]
    exact atoiInt_decimal hb

/-- The list is read back as it is stored. -/
theorem getFullfileinfo_list {own : PathName} {l : List PathName} {q : FileQuery}
    {mem : FileinfoMemory} (h : Holds l (s.view (key own))) (hl : ∀ n ∈ l, n.chars ≠ [])
    (hlen : l.length < 2 ^ 31) (hq : q.rc = 0) (hfile : mem.fileinfo)
    (hmem : ∀ lc, mem.linkinfo lc) :
    (getFullfileinfo key host q own mem s).1.map LxafsFileinfo.list =
      some (l.map PathName.chars) := by
  have hnat : (BitVec.ofInt 32 (l.length : ℤ)).toNat = l.length := by
    rw [BitVec.ofInt_natCast, BitVec.toNat_ofNat, Nat.mod_eq_of_lt (by omega)]
  rw [getFullfileinfo, if_pos hfile]
  simp only [eas_flush, (lcCount_cmdGetFileInfo hq own.chars _).1, ne_eq, not_true_eq_false,
    ↓reduceIte, h.lcCount hlen hq, hnat]
  rw [readLinks_eq h hl hlen hmem le_rfl, List.take_length, List.append_nil]
  rfl

end EaSys

/-! ### Runs -/

/-- The attributes of the host files, with the queued commands. -/
structure LinkListSys (κ : Type) where
  /-- The attributes and the queue. -/
  sys : EaSys κ
  /-- The list of the last call of `lxafs_rewrite_linklist` that returned `0`. -/
  written : Option (List PathName)

/-- What happens to the link list of an inode. -/
inductive LinkListAct
  /-- `lxafs_rewrite_linklist` -/
  | rewrite (l : List PathName) (dirtyFlag alloc : ULONG) (opened : PathName → Bool)
  /-- The daemon executes a command. -/
  | execute

namespace LinkListSys

open EaSys

variable {κ : Type} [DecidableEq κ]

/-- The inode with the master name `own`. -/
def machine (key : PathName → κ) (host : EaHost) (own : PathName) (s₀ : LinkListSys κ) :
    Machine (LinkListSys κ) LinkListAct where
  init := s₀
  step s
    | .rewrite l dirtyFlag alloc opened =>
      let r := rewriteLinklist key host own l dirtyFlag alloc opened s.sys
      some ⟨r.2, if r.1 = 0 then some l else s.written⟩
    | .execute =>
      match s.sys.queue with
      | [] => none
      | c :: queue => some { s with sys := ⟨exec s.sys.eas c, queue⟩ }

/-- A list of names that are not empty.  Its entries are structures of 272 bytes in a 32-bit address
space.  If the dummy files are written as well, none of them is the master's host file. -/
def Storable (key : PathName → κ) (own : PathName) : LinkListAct → Prop
  | .rewrite l dirtyFlag _ _ => (∀ n ∈ l, n.chars ≠ []) ∧ 272 * l.length ≤ 2 ^ 32 ∧
      (dirtyFlag &&& lxafsDirtyLinkchilds ≠ 0 → ∀ n ∈ l, key n ≠ key own)
  | .execute => True

/-- The attributes hold the last list; before the first call, the links are numbered up to the
count. -/
def Kept (key : PathName → κ) (host : EaHost) (own : PathName) (s : LinkListSys κ) : Prop :=
  match s.written with
  | none => Within host (s.sys.view (key own))
  | some l => Holds l (s.sys.view (key own)) ∧ (∀ n ∈ l, n.chars ≠ []) ∧ l.length < 2 ^ 31

variable {key : PathName → κ} {host : EaHost} {own : PathName} {s₀ s s' : LinkListSys κ}

theorem Kept.within (h : Kept key host own s) : Within host (s.sys.view (key own)) := by
  unfold Kept at h
  cases hw : s.written with
  | none =>
    rw [hw] at h
    exact h
  | some l =>
    rw [hw] at h
    exact h.1.within h.2.2

theorem kept_step {a : LinkListAct} (h : Kept key host own s) (hg : Storable key own a)
    (hstep : (machine key host own s₀).step s a = some s') : Kept key host own s' := by
  cases a with
  | rewrite l dirtyFlag alloc opened =>
    obtain ⟨hl, hmem, hchilds⟩ := hg
    simp only [machine, Option.some.injEq] at hstep
    by_cases halloc : alloc = 0
    · subst halloc
      have hholds : Holds l
          ((rewriteLinklist key host own l dirtyFlag 0 opened s.sys).2.view (key own)) :=
        holds_rewriteLinklist h.within hl (by omega) hchilds
      have hrc : (rewriteLinklist key host own l dirtyFlag 0 opened s.sys).1 = 0 := by
        rw [rewriteLinklist, if_neg (not_not.2 rfl)]
        simp only
        split_ifs <;> rfl
      rw [if_pos hrc] at hstep
      subst hstep
      exact ⟨hholds, hl, by omega⟩
    · have hfail : rewriteLinklist key host own l dirtyFlag alloc opened s.sys = (alloc, s.sys) :=
        if_pos halloc
      rw [hfail, if_neg halloc] at hstep
      subst hstep
      exact h
  | execute =>
    simp only [machine] at hstep
    cases hq : s.sys.queue with
    | nil =>
      rw [hq] at hstep
      cases hstep
    | cons c queue =>
      rw [hq] at hstep
      cases hstep
      have hview : (EaSys.view ⟨exec s.sys.eas c, queue⟩ : κ → EaStore) = s.sys.view := by
        funext k
        rw [view, view, flush, flush, hq]
        rfl
      unfold Kept at h ⊢
      simp only [hview]
      exact h

/-- **The link list is stored and read back.**  After any calls of `lxafs_rewrite_linklist`, when
the queued commands are executed, the attributes hold the last list that was written and no other
links, and `lxafs_get_fullfileinfo` returns it. -/
theorem roundTrip {as : List LinkListAct} {l : List PathName}
    (hnew : s₀.written = none) (hold : Within host (s₀.sys.view (key own)))
    (h : (machine key host own s₀).Run (fun _ => Storable key own) s₀ as s)
    (hl : s.written = some l) {q : FileQuery} {mem : FileinfoMemory} (hq : q.rc = 0)
    (hfile : mem.fileinfo) (hmem : ∀ lc, mem.linkinfo lc) :
    Holds l (s.sys.flush.eas (key own)) ∧
      (getFullfileinfo key host q own mem s.sys).1.map LxafsFileinfo.list =
        some (l.map PathName.chars) := by
  have h₀ : Kept key host own s₀ := by
    unfold Kept
    rw [hnew]
    exact hold
  have hkept : Kept key host own s := h.invariant (fun _ _ _ => kept_step) h₀
  unfold Kept at hkept
  rw [hl] at hkept
  obtain ⟨hholds, hnames, hlen⟩ := hkept
  exact ⟨hholds, getFullfileinfo_list hholds hnames hlen hq hfile hmem⟩

/-- A host on which the attributes of every file take 100 bytes. -/
def sampleHost : EaHost := ⟨fun _ => 100, fun _ _ _ _ => by omega⟩

/-- The host files have no attributes, and nothing is queued. -/
def noAttributes : LinkListSys Bytes := ⟨⟨fun _ _ => none, []⟩, none⟩

/-- Two names of `C:/a` are written, the daemon executes two commands, and only the second name is
written again. -/
def shorterList : List LinkListAct :=
  [.rewrite [entryA.path, entryB.path] 1 0 fun _ => false, .execute, .execute,
    .rewrite [entryB.path] 3 0 fun _ => true]

/-- `roundTrip` for this run. -/
theorem roundTrip_shorterList :
    ∃ s, (machine PathName.chars sampleHost entryA.path noAttributes).exec noAttributes
        shorterList = some s ∧
      Holds [entryB.path] (s.sys.flush.eas entryA.path.chars) ∧
      (getFullfileinfo PathName.chars sampleHost ⟨0, false, [], fun _ => false⟩ entryA.path
        ⟨true, fun _ => true, fun _ => []⟩ s.sys).1.map LxafsFileinfo.list =
          some [entryB.path.chars] := by
  obtain ⟨s, hs⟩ := Option.isSome_iff_exists.1
    (rfl : ((machine PathName.chars sampleHost entryA.path noAttributes).exec noAttributes
      shorterList).isSome = true)
  refine ⟨s, hs, ?_⟩
  have hrun : (machine PathName.chars sampleHost entryA.path noAttributes).Run
      (fun _ => Storable PathName.chars entryA.path) noAttributes shorterList s := by
    refine Machine.run_of_along hs ⟨⟨by decide, by decide, ?_⟩, fun _ _ => ⟨trivial, fun _ _ =>
      ⟨trivial, fun _ _ => ⟨⟨by decide, by decide, ?_⟩, fun _ _ => trivial⟩⟩⟩⟩
    · intro h
      exact absurd rfl h
    · intro _
      decide
  have hwritten : s.written = some [entryB.path] := by
    have hall : ((machine PathName.chars sampleHost entryA.path noAttributes).exec noAttributes
        shorterList).map written = some (some [entryB.path]) := rfl
    rw [hs] at hall
    exact Option.some.inj hall
  exact roundTrip rfl (fun _ h => absurd rfl h) hrun hwritten rfl rfl fun _ => rfl

end LinkListSys

end LxApi32
