import LxApi32.Lxlibc.Io

/-!
# Calls of lxlibc that fail to open a file

`LXAPI_open`, `LXAPI_sopen`, `LXAPI_creat` and `LXAPI_dup` get a real handle from a subsystem first,
and then memory for the entry that maps it.  If there is no memory they return -1, and the real
handle stays open.

* `LibC.leavesNothing_iff` : a call that fails leaves no real handle open and the mapped handles as
  they were, exactly if it has no memory for the path, or all the subsystems that it asks refuse, or
  there is memory for the entry.
-/

namespace LxApi32

namespace LibC

/-- A call leaves no real handle open, and the mapped handles as they were. -/
structure NothingLeft (s s' : LibC) : Prop where
  /-- What is open then has been open before, in both subsystems. -/
  real : ∀ type, ∀ h ∈ s'.tables type, h ∈ s.tables type
  /-- `lx_filehandles` is unchanged. -/
  mapped : s'.filehandles = s.filehandles

/-- A call that opens a file, and returns a negative number, leaves nothing. -/
def LeavesNothing (s : LibC) : LxCall → Prop
  | .dup2 .. => True
  | .op handle .dup answer entry =>
    (s.lxapiDup handle answer entry).1 < 0 → NothingLeft s (s.lxapiDup handle answer entry).2
  | .op .. => True
  | c => (s.call c).1 < 0 → NothingLeft s (s.call c).2

/-- Each subsystem that is asked for a file refuses it: Linux is asked for what may be a path of
unix, and OS/2 for other paths and what Linux refuses, unless it says `EPERM`. -/
def Refused (unix : Bool) (lx os : Except Refusal ℕ) : Prop :=
  match unix, lx, os with
  | true, .ok _, _ => False
  | true, .error e, .ok _ => e.code = -errEPERM
  | true, .error _, .error _ => True
  | false, _, .ok _ => False
  | false, _, .error _ => True

/-- A call gets no real handle, or memory for the entry. -/
def HoldsEntry (s : LibC) : LxCall → Prop
  | .open pathname copy lx os entry | .creat pathname copy lx os entry =>
    (∀ behind ∈ copy,
      Refused (maybeUnixFile (CString.strncpy [] pathname lxMaxPath ++ behind)) lx os) ∨
        entry = true
  | .dup2 .. => True
  | .op handle .dup answer entry =>
    (∀ fhp ∈ lxapiGetFilehandleStruct handle s.filehandles,
      answer.isOk = true → fhp.realHandle ∉ s.tables fhp.type) ∨ entry = true
  | .op .. => True

variable {s s₁ : LibC} {type : FhType} {r : Request} {lx os : Except Refusal ℕ} {unix entry : Bool}
  {served : ℤ × Descriptors ℕ} {a : ℤ × LibC} {rc : ℤ}

theorem nothingLeft_of_eq {s' : LibC} (ht : s'.tables = s.tables)
    (hf : s'.filehandles = s.filehandles) : NothingLeft s s' :=
  ⟨fun _ _ h => ht ▸ h, hf⟩

/-- A file is registered under a number from 2 on, or not at all. -/
theorem register_neg_iff (s : LibC) (handle : ℤ) (type : FhType) (entry : Bool) :
    (s.register handle type entry).1 < 0 ↔ entry = false := by
  have hle := (lowest_spec (s.filehandles.map (·.mappedHandle)) 2).1
  rw [List.length_map] at hle
  cases entry <;> simp [register, lxapiRegisterFilehandle, lxapiRegisterRealFilehandle]
  omega

/-- What has been opened stays open if it cannot be registered. -/
theorem nothingLeft_opened_iff (ht : s₁.tables = s.tables) {f : ℕ}
    (ha : a = s₁.ask type r ((s₁.tables type).openLowest f)) :
    ((if 0 ≤ a.1 then a.2.register a.1 type entry else (rc, a.2)).1 < 0 →
      NothingLeft s (if 0 ≤ a.1 then a.2.register a.1 type entry else (rc, a.2)).2) ↔
      entry = true := by
  have hrc : a.1 = ((s₁.tables type).openLowest f).1 := ha ▸ rfl
  have hle := Descriptors.zero_le_openLowest (s₁.tables type) f
  rw [if_pos (by omega), register_neg_iff]
  constructor
  · intro h
    by_contra hentry
    have hreal := (h (Bool.eq_false_iff.2 hentry)).real type a.1
    have htables : (a.2.register a.1 type entry).2.tables type =
        ((s₁.tables type).openLowest f).2 := by
      have hask : (a.2.register a.1 type entry).2.tables = a.2.tables := rfl
      rw [hask, ha, ask_tables, Function.update_self]
    rw [htables, ← ht, hrc] at hreal
    exact Descriptors.openLowest_notMem _ f (hreal ((AList.mem_insert _).2 (.inl rfl)))
  · rintro rfl hentry
    exact absurd hentry (by decide)

/-- A refusal leaves nothing. -/
theorem nothingLeft_refused (hf : s₁.filehandles = s.filehandles) (ht : s₁.tables = s.tables)
    (hneg : served.1 < 0) (hsame : served.2 = s₁.tables type) (ha : a = s₁.ask type r served) :
    NothingLeft s (if 0 ≤ a.1 then a.2.register a.1 type entry else (rc, a.2)).2 := by
  have hrc : a.1 = served.1 := ha ▸ rfl
  rw [if_neg (by omega)]
  refine nothingLeft_of_eq ?_ (ha ▸ hf)
  rw [ha, ask_tables_of_eq s₁ r hsame, ht]

/-! ### Files by name -/

/-- The subsystems are asked in their order: all refuse, or one opens the file. -/
theorem openReal_ends (s : LibC) (r : Request) (unix : Bool) (lx os : Except Refusal ℕ) :
    (Refused unix lx os ∧ (s.openReal r unix lx os).2.1 < 0 ∧
      NothingLeft s (s.openReal r unix lx os).2.2) ∨
    (¬ Refused unix lx os ∧ ∃ (s₁ : LibC) (type : FhType) (f : ℕ), s₁.tables = s.tables ∧
      s.openReal r unix lx os = (type, s₁.ask type r ((s₁.tables type).openLowest f))) := by
  have hos (s₁ : LibC) (hf : s₁.filehandles = s.filehandles) (ht : s₁.tables = s.tables)
      (e : Refusal) : NothingLeft s (s₁.ask .os r (serveOpen (s₁.tables .os) (.error e))).2 :=
    nothingLeft_of_eq ((ask_tables_of_eq s₁ r rfl).trans ht) hf
  cases unix with
  | false =>
    cases os with
    | ok f => exact .inr ⟨not_false, s, .os, f, rfl, rfl⟩
    | error e => exact .inl ⟨trivial, e.neg, hos s rfl rfl e⟩
  | true =>
    cases lx with
    | ok f =>
      refine .inr ⟨not_false, s, .lx, f, rfl, ?_⟩
      have hle := Descriptors.zero_le_openLowest (s.tables .lx) f
      have hnot : ¬ ((s.tables .lx).openLowest f).1 < 0 := by omega
      simp [openReal, serveOpen, ask, hnot]
    | error e =>
      have hasked : (s.ask .lx r (serveOpen (s.tables .lx) (.error e))).2.tables = s.tables :=
        ask_tables_of_eq s r rfl
      have hneg : (s.ask .lx r (serveOpen (s.tables .lx) (.error e))).1 < 0 := e.neg
      have hcode : (s.ask .lx r (serveOpen (s.tables .lx) (.error e))).1 = e.code := rfl
      unfold openReal
      dsimp only
      rw [if_pos rfl, if_pos hneg, hcode]
      by_cases hperm : e.code = -errEPERM
      · rw [if_neg (not_not_intro hperm)]
        refine .inl ⟨?_, Int.negSucc_lt_zero 0, nothingLeft_of_eq hasked rfl⟩
        cases os with
        | ok _ => exact hperm
        | error _ => trivial
      · rw [if_pos hperm]
        cases os with
        | ok f => exact .inr ⟨hperm, _, .os, f, hasked, rfl⟩
        | error e' =>
          refine .inl ⟨trivial, e'.neg, ?_⟩
          exact hos (s.ask .lx r (serveOpen (s.tables .lx) (.error e))).2 rfl hasked e'

theorem openFile_leavesNothing_iff (request : Bytes → Request) (pathname : Bytes)
    (copy : Option Bytes) :
    ((s.openFile request pathname copy lx os entry).1 < 0 →
      NothingLeft s (s.openFile request pathname copy lx os entry).2) ↔
    (∀ behind ∈ copy,
      Refused (maybeUnixFile (CString.strncpy [] pathname lxMaxPath ++ behind)) lx os) ∨
      entry = true := by
  cases copy with
  | none => exact iff_of_true (fun _ => nothingLeft_of_eq rfl rfl) (.inl nofun)
  | some behind =>
    simp only [Option.mem_some_iff, forall_eq']
    unfold openFile
    dsimp only
    rcases s.openReal_ends (request (CString.str (CString.strncpy [] pathname lxMaxPath ++ behind)))
      (maybeUnixFile (CString.strncpy [] pathname lxMaxPath ++ behind)) lx os with
      ⟨href, hneg, hleft⟩ | ⟨href, s₁, type, f, ht, heq⟩
    · refine iff_of_true (fun _ => ?_) (.inl href)
      rw [if_neg (Int.not_le.2 hneg)]
      exact hleft
    · rw [heq, or_iff_right href]
      dsimp only
      exact nothingLeft_opened_iff ht rfl

/-! ### Files by handle -/

theorem lxapiDup_leavesNothing_iff (handle : ℤ) (answer : Except Refusal ℤ) :
    ((s.lxapiDup handle answer entry).1 < 0 → NothingLeft s (s.lxapiDup handle answer entry).2) ↔
      (∀ fhp ∈ lxapiGetFilehandleStruct handle s.filehandles,
        answer.isOk = true → fhp.realHandle ∉ s.tables fhp.type) ∨ entry = true := by
  unfold lxapiDup
  cases hfhp : lxapiGetFilehandleStruct handle s.filehandles with
  | none => exact iff_of_true (fun _ => nothingLeft_of_eq rfl rfl) (.inl nofun)
  | some fhp =>
    simp only [Option.mem_some_iff, forall_eq']
    cases answer with
    | error e =>
      exact iff_of_true (fun _ => nothingLeft_refused rfl rfl e.neg rfl rfl) (.inl nofun)
    | ok n =>
      cases hdup : (s.tables fhp.type).dup fhp.realHandle with
      | none =>
        have hnot : fhp.realHandle ∉ s.tables fhp.type := by
          rw [← AList.lookup_eq_none]
          exact Option.map_eq_none_iff.1 hdup
        have hserve : serveOp (s.tables fhp.type) .dup fhp.realHandle (.ok n) =
            (-errEBADF, s.tables fhp.type) := by
          simp [serveOp, hdup]
        refine iff_of_true (fun _ => ?_) (.inl fun _ => hnot)
        rw [hserve]
        exact nothingLeft_refused rfl rfl neg_errEBADF rfl rfl
      | some opened =>
        obtain ⟨f, rfl⟩ := Descriptors.dup_eq_some hdup
        have hmem : fhp.realHandle ∈ s.tables fhp.type := by
          by_contra hnot
          rw [Descriptors.dup, AList.lookup_eq_none.2 hnot] at hdup
          exact absurd hdup nofun
        have hserve : serveOp (s.tables fhp.type) .dup fhp.realHandle (.ok n) =
            (s.tables fhp.type).openLowest f := by
          simp [serveOp, hdup]
        rw [or_iff_right fun h => h rfl hmem, hserve]
        exact nothingLeft_opened_iff rfl rfl

/-- **Failing calls leave nothing**, exactly if a real handle that has been opened can be
registered. -/
theorem leavesNothing_iff (s : LibC) (c : LxCall) : s.LeavesNothing c ↔ s.HoldsEntry c := by
  cases c with
  | «open» pathname copy => exact openFile_leavesNothing_iff .open pathname copy
  | creat pathname copy => exact openFile_leavesNothing_iff .creat pathname copy
  | dup2 => exact Iff.rfl
  | op handle op answer entry =>
    cases op with
    | dup => exact lxapiDup_leavesNothing_iff handle answer
    | read | write | lseek | close | fchmod | ftruncate | readdir | getdents => exact Iff.rfl

/-- A file of Linux is opened when there is no memory for the entry. -/
theorem not_leavesNothing_noEntry :
    ¬ (machine stdTables).init.LeavesNothing (.open [0x61] (some []) (.ok 3) (.ok 3) false) := by
  intro h
  have hleft : NothingLeft (machine stdTables).init _ := h (by decide)
  exact absurd (hleft.real .lx 3 (by decide +kernel)) (by decide)

end LibC

end LxApi32
