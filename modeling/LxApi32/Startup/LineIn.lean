import LxApi32.Daemon.Packet
import LxApi32.Lib.CString
import LxApi32.Lib.Pieces

/-!
# Lines of a file

`LX_si_linein` reads a line into a buffer, one byte at a time, and `LX_process_script` and
`LX_check_log_file` call it until it returns null.

* `lxSiLinein_ended`, `lxSiLinein_open` : a call on a line that LF ends, and on one that the end of
  the file ends.
* `lineIns_eq` : the calls return the lines of the file.
* `lxSiLinein_nul_iff` : when there is a NUL in the buffer.
-/

namespace LxApi32

/-- The line end. -/
def charLF : UInt8 := 0x0a

/-- The byte that files of OS/2 have before it. -/
def charCR : UInt8 := 0x0d

/-! ### The functions -/

/-- What a read of one byte delivers. -/
inductive Reading
  /-- An error. -/
  | failed
  /-- No byte. -/
  | nothing
  /-- A byte. -/
  | byte (c : UInt8)
  deriving DecidableEq, Repr

/-- What the handles in `lx_sio_handles` deliver from now on. -/
abbrev SioFiles := ULONG → Option (List Reading)

/-- `LX_si_read` with a count of 1. -/
def lxSiRead (f : SioFiles) (handle : ULONG) : Reading × SioFiles :=
  match f handle with
  | none => (.failed, f)
  | some [] => (.nothing, f)
  | some (r :: rs) => (r, Function.update f handle (some rs))

/-- The loop of `LX_si_linein` when it is left: the files, the buffer, `nb`, and the last read if it
delivered no byte. -/
structure LineLoop where
  /-- The files. -/
  files : SioFiles
  /-- The buffer. -/
  buffer : Bytes
  /-- `nb` -/
  nb : ℕ
  /-- `rc` is not 0. -/
  rc : Bool
  /-- `b` is not 0. -/
  b : Bool

/-- The result of `LX_si_linein` is not null. -/
def LineLoop.ret (s : LineLoop) : Bool := !(s.rc || (!s.b && s.nb == 0))

/-- What `LX_si_linein` does at LF.  `nb` is an `int`. -/
def lineEnd (buffer : Bytes) (nb : ℕ) : Bytes × ℕ :=
  let buffer := buffer.set nb 0
  if 0 < nb ∧ nb < 2 ^ 31 ∧ buffer[nb - 1]? = some charCR then (buffer.set (nb - 1) 0, nb - 1)
  else (buffer, nb)

/-- The loop of `LX_si_linein`, of which `*pcbBytes-nb` rounds are left; `p` is `pBuffer+nb`. -/
def lineLoop (handle : ULONG) : ℕ → SioFiles → Bytes → ℕ → LineLoop
  | 0, f, buffer, nb => ⟨f, buffer, nb, false, true⟩
  | k + 1, f, buffer, nb =>
    match lxSiRead f handle with
    | (.failed, f) => ⟨f, buffer, nb, true, true⟩
    | (.nothing, f) => ⟨f, buffer, nb, false, false⟩
    | (.byte c, f) =>
      if c = charLF then
        let (buffer, nb) := lineEnd buffer nb
        ⟨f, buffer, nb, false, true⟩
      else lineLoop handle k f (buffer.set nb c) (nb + 1)

/-- What `LX_si_linein` leaves. -/
structure LineIn where
  /-- The files. -/
  files : SioFiles
  /-- `*pcbBytes` -/
  pcbBytes : ULONG
  /-- The buffer. -/
  buffer : Bytes
  /-- The result is not null. -/
  ret : Bool

/-- `LX_si_linein` -/
def lxSiLinein (f : SioFiles) (handle pcbBytes : ULONG) (pBuffer : Bytes) : LineIn :=
  if f handle = none then ⟨f, pcbBytes, pBuffer, false⟩
  else
    let size := pcbBytes.toNat
    let s := lineLoop handle size f (List.replicate size 0 ++ pBuffer.drop size) 0
    ⟨s.files, BitVec.ofNat 32 s.nb, s.buffer, s.ret⟩

/-- The lines that calls return, one after the other: `*pcbBytes` and the buffer of each, and
nothing for null. -/
def lineIns (handle pcbBytes : ULONG) : ℕ → SioFiles → Bytes → List (Option (ULONG × Bytes))
  | 0, _, _ => []
  | n + 1, f, pBuffer =>
    let r := lxSiLinein f handle pcbBytes pBuffer
    (if r.ret then some (r.pcbBytes, r.buffer) else none) ::
      lineIns handle pcbBytes n r.files r.buffer

/-! ### The loop -/

section

variable {f : SioFiles} {handle size : ULONG} {l pre pBuffer s t : Bytes} {rs : List Reading}
  {k n : ℕ}

@[simp] theorem lxSiRead_cons (f : SioFiles) (handle : ULONG) (r : Reading) (rs : List Reading) :
    lxSiRead (Function.update f handle (some (r :: rs))) handle =
      (r, Function.update f handle (some rs)) := by
  simp [lxSiRead]

@[simp] theorem lxSiRead_nil (f : SioFiles) (handle : ULONG) :
    lxSiRead (Function.update f handle (some [])) handle =
      (.nothing, Function.update f handle (some [])) := by
  simp [lxSiRead]

theorem set_append_replicate (pre : Bytes) (k : ℕ) (c : UInt8) :
    (pre ++ List.replicate (k + 1) 0).set pre.length c = (pre ++ [c]) ++ List.replicate k 0 := by
  simp [List.replicate_succ]

/-- Bytes that are not LF are read into the buffer. -/
theorem lineLoop_append (f : SioFiles) (handle : ULONG) (rs : List Reading) (pre : Bytes)
    (hl : charLF ∉ l) (hk : l.length ≤ k) :
    lineLoop handle k (Function.update f handle (some (l.map .byte ++ rs)))
        (pre ++ List.replicate k 0) pre.length =
      lineLoop handle (k - l.length) (Function.update f handle (some rs))
        (pre ++ l ++ List.replicate (k - l.length) 0) (pre ++ l).length := by
  induction l generalizing k pre with
  | nil => simp
  | cons c l ih =>
    obtain ⟨k, rfl⟩ : ∃ m, k = m + 1 := ⟨k - 1, by simp at hk; omega⟩
    have hc : c ≠ charLF := fun h => hl (h ▸ List.mem_cons_self)
    have hl' : charLF ∉ l := fun h => hl (List.mem_cons_of_mem _ h)
    have hk' : l.length ≤ k := by simpa using hk
    have := ih (pre ++ [c]) hl' hk'
    rw [List.length_append, List.length_singleton] at this
    rw [List.map_cons, List.cons_append, lineLoop, lxSiRead_cons]
    simp only [hc, if_false]
    rw [set_append_replicate, this]
    simp

/-- A line without its CR. -/
def chopCR (l : Bytes) : Bytes := if l.getLast? = some charCR then l.dropLast else l

/-- A line that LF ends, as `LX_si_linein` returns it.  `nb` is an `int`, so the CR of a line of
2^31 bytes stays. -/
def endedText (l : Bytes) : Bytes := if l.length < 2 ^ 31 then chopCR l else l

theorem length_endedText_le (l : Bytes) : (endedText l).length ≤ l.length := by
  unfold endedText chopCR
  split_ifs <;> simp

theorem endedText_concat (l : Bytes) (c : UInt8) :
    endedText (l ++ [c]) = if l.length + 1 < 2 ^ 31 ∧ c = charCR then l else l ++ [c] := by
  simp [endedText, chopCR, ite_and]

/-- At LF the buffer has the line. -/
theorem lineEnd_eq (l : Bytes) (k : ℕ) :
    lineEnd (l ++ List.replicate (k + 1) 0) l.length =
      (endedText l ++ List.replicate (l.length + (k + 1) - (endedText l).length) 0,
        (endedText l).length) := by
  have hset : (l ++ List.replicate (k + 1) (0 : UInt8)).set l.length 0 =
      l ++ List.replicate (k + 1) 0 := by
    rw [set_append_replicate, List.append_assoc, List.singleton_append, ← List.replicate_succ]
  simp only [lineEnd, hset]
  cases l using List.reverseRecOn with
  | nil => simp [endedText, chopCR]
  | append_singleton l c =>
    have hlast : (l ++ [c] ++ List.replicate (k + 1) (0 : UInt8))[l.length]? = some c := by simp
    have hdrop : (l ++ [c] ++ List.replicate (k + 1) (0 : UInt8)).set l.length 0 =
        l ++ List.replicate (k + 2) 0 := by
      simp [List.replicate_succ]
    have hlen : (l ++ [c]).length = l.length + 1 := by simp
    rw [hlen, Nat.add_sub_cancel, hlast, hdrop, endedText_concat]
    by_cases hc : l.length + 1 < 2 ^ 31 ∧ c = charCR
    · have hk : l.length + 1 + (k + 1) - l.length = k + 2 := by omega
      rw [if_pos hc, if_pos ⟨Nat.succ_pos _, hc.1, congrArg some hc.2⟩, hk]
    · have hc' : ¬ (0 < l.length + 1 ∧ l.length + 1 < 2 ^ 31 ∧ some c = some charCR) :=
        fun h => hc ⟨h.2.1, Option.some.inj h.2.2⟩
      rw [if_neg hc, if_neg hc', hlen, Nat.add_sub_cancel_left]

/-! ### A call -/

/-- A buffer with a line. -/
def lineBuffer (size : ULONG) (t : Bytes) : Bytes := t ++ List.replicate (size.toNat - t.length) 0

theorem memset_eq (h : pBuffer.length = size.toNat) :
    List.replicate size.toNat 0 ++ pBuffer.drop size.toNat = [] ++ List.replicate size.toNat 0 := by
  rw [List.drop_eq_nil_of_le h.le, List.append_nil, List.nil_append]

/-- A call on a line that LF ends. -/
theorem lxSiLinein_ended (f : SioFiles) (handle : ULONG) (rs : List Reading) (hl : charLF ∉ l)
    (hsize : l.length < size.toNat) (hbuf : pBuffer.length = size.toNat) :
    lxSiLinein (Function.update f handle (some (l.map .byte ++ .byte charLF :: rs))) handle size
        pBuffer =
      ⟨Function.update f handle (some rs), BitVec.ofNat 32 (endedText l).length,
        lineBuffer size (endedText l), true⟩ := by
  obtain ⟨k, hk⟩ : ∃ k, size.toNat - l.length = k + 1 := ⟨size.toNat - l.length - 1, by omega⟩
  have hsum : l.length + (k + 1) = size.toNat := by omega
  have hloop := lineLoop_append f handle (.byte charLF :: rs) [] hl hsize.le
  rw [hk, List.length_nil, List.nil_append l, lineLoop, lxSiRead_cons] at hloop
  simp only [if_true, lineEnd_eq, hsum] at hloop
  simp only [lxSiLinein, memset_eq hbuf, hloop, LineLoop.ret]
  simp [lineBuffer]

/-- A call on a line that the end of the file ends. -/
theorem lxSiLinein_open (f : SioFiles) (handle : ULONG) (hl : charLF ∉ l)
    (hsize : l.length < size.toNat) (hbuf : pBuffer.length = size.toNat) :
    lxSiLinein (Function.update f handle (some (l.map .byte))) handle size pBuffer =
      ⟨Function.update f handle (some []), BitVec.ofNat 32 l.length, lineBuffer size l,
        decide (l ≠ [])⟩ := by
  obtain ⟨k, hk⟩ : ∃ k, size.toNat - l.length = k + 1 := ⟨size.toNat - l.length - 1, by omega⟩
  have hloop := lineLoop_append f handle [] [] hl hsize.le
  rw [hk, List.length_nil, List.nil_append l, List.append_nil, lineLoop, lxSiRead_nil] at hloop
  have hnil : (l.length == 0) = decide (l = []) := by cases l <;> simp
  simp only [lxSiLinein, memset_eq hbuf, hloop, LineLoop.ret]
  simp [lineBuffer, hk, hnil]

/-! ### The lines of a file -/

/-- The lines of a file, the last one without LF included. -/
def fileLines (s : Bytes) : List Bytes :=
  Pieces.ended charLF s ++ if Pieces.rest charLF s = [] then [] else [Pieces.rest charLF s]

/-- The lines of a file as they are returned: the CR goes where LF is behind it. -/
def lineTexts (s : Bytes) : List Bytes :=
  (Pieces.ended charLF s).map endedText ++
    if Pieces.rest charLF s = [] then [] else [Pieces.rest charLF s]

theorem lineTexts_of_notMem (h : charLF ∉ l) : lineTexts l = if l = [] then [] else [l] := by
  rw [lineTexts, Pieces.ended_of_notMem h, Pieces.rest_of_notMem h, List.map_nil, List.nil_append]

theorem lineTexts_append (h : charLF ∉ l) (t : Bytes) :
    lineTexts (l ++ charLF :: t) = endedText l :: lineTexts t := by
  rw [lineTexts, Pieces.ended_append h, Pieces.rest_append h, List.map_cons, List.cons_append,
    lineTexts]

/-- What a call returns with a line. -/
def returnedLine (size : ULONG) (t : Bytes) : Option (ULONG × Bytes) :=
  some (BitVec.ofNat 32 t.length, lineBuffer size t)

theorem length_lineBuffer (h : l.length ≤ size.toNat) :
    (lineBuffer size l).length = size.toNat := by
  rw [lineBuffer, List.length_append, List.length_replicate]
  omega

/-- Behind the end of a file every call returns null. -/
theorem lineIns_nil (f : SioFiles) (handle : ULONG) (n : ℕ) (hsize : 0 < size.toNat)
    (hbuf : pBuffer.length = size.toNat) :
    lineIns handle size n (Function.update f handle (some [])) pBuffer = List.replicate n none := by
  induction n generalizing pBuffer with
  | zero => rfl
  | succ n ih =>
    have hcall := lxSiLinein_open f handle (List.not_mem_nil (a := charLF)) hsize hbuf
    rw [List.map_nil] at hcall
    rw [lineIns, hcall]
    simp only [ne_eq, not_true_eq_false, decide_false]
    rw [ih (length_lineBuffer (Nat.zero_le _))]
    simp [List.replicate_succ]

theorem lineIns_update (f : SioFiles) (handle : ULONG) (s : Bytes) (n : ℕ)
    (hs : ∀ l ∈ s.splitOn charLF, l.length < size.toNat) (hbuf : pBuffer.length = size.toNat) :
    lineIns handle size n (Function.update f handle (some (s.map .byte))) pBuffer =
      ((lineTexts s).map (returnedLine size) ++ List.replicate n none).take n := by
  induction s using Pieces.induction charLF generalizing n pBuffer with
  | last l hl =>
    have hlen : l.length < size.toNat := hs l (by simp [List.splitOn_eq_singleton hl])
    have hpos : 0 < size.toNat := Nat.zero_lt_of_lt hlen
    cases n with
    | zero => rfl
    | succ n =>
      rw [lineIns, lxSiLinein_open f handle hl hlen hbuf, lineTexts_of_notMem hl]
      simp only [lineIns_nil f handle n hpos (length_lineBuffer hlen.le)]
      by_cases hnil : l = []
      · simp [hnil, List.replicate_succ]
      · simp [hnil, returnedLine, List.take_replicate]
  | piece l t hl ih =>
    have hlen : l.length < size.toNat :=
      hs l (by simp [List.splitOn_append_cons_self_of_not_mem hl])
    have ht : ∀ p ∈ t.splitOn charLF, p.length < size.toNat := fun p hp =>
      hs p (by simp [List.splitOn_append_cons_self_of_not_mem hl, hp])
    cases n with
    | zero => rfl
    | succ n =>
      rw [List.map_append, List.map_cons, lineIns, lxSiLinein_ended f handle _ hl hlen hbuf]
      have hbuf' := length_lineBuffer ((length_endedText_le l).trans hlen.le)
      simp only [ih n ht hbuf']
      simp [lineTexts_append hl, returnedLine, List.take_append, List.take_replicate]
      omega

/-- `LX_si_linein` returns the lines of a file in order, and then null. -/
theorem lineIns_eq (f : SioFiles) (handle size : ULONG) (s pBuffer : Bytes) (n : ℕ)
    (hf : f handle = some (s.map .byte)) (hs : ∀ l ∈ s.splitOn charLF, l.length < size.toNat)
    (hbuf : pBuffer.length = size.toNat) :
    lineIns handle size n f pBuffer =
      ((lineTexts s).map (returnedLine size) ++ List.replicate n none).take n := by
  have := lineIns_update f handle s n hs hbuf
  rwa [← hf, Function.update_eq_self] at this

/-- A line that LF ends, an empty one, and one that the end of the file ends. -/
theorem lineIns_three :
    lineIns 3 8 4 (fun _ => some (([97, 13, 10, 10, 98] : Bytes).map .byte))
        (List.replicate 8 1) =
      ((lineTexts [97, 13, 10, 10, 98]).map (returnedLine 8) ++ List.replicate 4 none).take 4 :=
  lineIns_eq (fun _ => some (([97, 13, 10, 10, 98] : Bytes).map .byte)) 3 8 [97, 13, 10, 10, 98]
    (List.replicate 8 1) 4 rfl (by decide) rfl

/-- The CR of a last line without LF stays. -/
theorem lineIns_loneCR :
    lineIns 3 8 2 (fun _ => some (([97, 13] : Bytes).map .byte)) (List.replicate 8 0) ≠
      (((fileLines [97, 13]).map chopCR).map (returnedLine 8) ++ List.replicate 2 none).take 2 := by
  decide

/-! ### The NUL behind a line -/

/-- The next `k` reads deliver bytes, none of them LF or NUL. -/
def FillsBuffer : ℕ → List Reading → Prop
  | 0, _ => True
  | k + 1, .byte c :: rs => c ≠ charLF ∧ c ≠ 0 ∧ FillsBuffer k rs
  | _ + 1, _ => False

/-- The result is not null, and there is no NUL in the buffer. -/
def LineLoop.NoNul (s : LineLoop) : Prop := s.ret = true ∧ 0 ∉ s.buffer

/-- The loop leaves a buffer without NUL where the bytes fill it. -/
theorem lineLoop_noNul_iff (f : SioFiles) (handle : ULONG) (k : ℕ) (rs : List Reading)
    (pre : Bytes) :
    (lineLoop handle k (Function.update f handle (some rs)) (pre ++ List.replicate k 0)
      pre.length).NoNul ↔ 0 ∉ pre ∧ FillsBuffer k rs := by
  induction k generalizing rs pre with
  | zero => simp [lineLoop, FillsBuffer, LineLoop.NoNul, LineLoop.ret]
  | succ k ih =>
    match rs with
    | [] => simp [lineLoop, FillsBuffer, LineLoop.NoNul]
    | .failed :: rs => simp [lineLoop, FillsBuffer, LineLoop.NoNul]
    | .nothing :: rs => simp [lineLoop, FillsBuffer, LineLoop.NoNul]
    | .byte c :: rs =>
      by_cases hc : c = charLF
      · have hlen : (endedText pre).length < pre.length + (k + 1) :=
          (length_endedText_le pre).trans_lt (by omega)
        simp [lineLoop, FillsBuffer, LineLoop.NoNul, hc, lineEnd_eq]
        omega
      · simp only [lineLoop, lxSiRead_cons, hc, if_false, set_append_replicate]
        have := ih rs (pre ++ [c])
        rw [List.length_append, List.length_singleton] at this
        rw [this]
        simp [FillsBuffer, hc, and_assoc, eq_comm]

/-- A line that `LX_si_linein` returns has a NUL behind it if and only if the bytes do not fill the
buffer. -/
theorem lxSiLinein_nul_iff (f : SioFiles) (handle size : ULONG) (pBuffer : Bytes)
    (hbuf : pBuffer.length = size.toNat) :
    ((lxSiLinein f handle size pBuffer).ret = true →
        0 ∈ (lxSiLinein f handle size pBuffer).buffer) ↔
      ¬ ∃ rs, f handle = some rs ∧ FillsBuffer size.toNat rs := by
  cases hf : f handle with
  | none => simp [lxSiLinein, hf]
  | some rs =>
    have hloop := lineLoop_noNul_iff f handle size.toNat rs []
    rw [← hf, Function.update_eq_self] at hloop
    have hmem := memset_eq hbuf
    simp only [lxSiLinein, hf, hmem, reduceCtorEq, if_false]
    rw [← not_iff_not, Classical.not_imp, not_not]
    exact hloop.trans (by simp)

theorem lxSiLinein_nul_two :
    ((lxSiLinein (fun _ => some [.byte 97]) 3 2 [5, 5]).ret = true →
        0 ∈ (lxSiLinein (fun _ => some [.byte 97]) 3 2 [5, 5]).buffer) ↔
      ¬ ∃ rs, some [.byte 97] = some rs ∧ FillsBuffer 2 rs :=
  lxSiLinein_nul_iff (fun _ => some [.byte 97]) 3 2 [5, 5] rfl

/-- A buffer of one byte, and a line of one byte. -/
theorem lxSiLinein_full :
    ¬ ((lxSiLinein (fun _ => some [.byte 97]) 3 1 [5]).ret = true →
      0 ∈ (lxSiLinein (fun _ => some [.byte 97]) 3 1 [5]).buffer) := by
  decide

end

end LxApi32
