import LxApi32.Daemon.Queue
import LxApi32.Lib.Pick
import Mathlib.Data.List.Perm.Subperm

/-!
# Outstanding commands

A command that has been queued is in one of four places: `lx_waiting_command_list`, the hands
of the daemon's thread inside `CMDGET`, the packets the daemon has fetched, or
`lx_done_command_list`.  Here is what the steps of the machine do to these places.

* `Sys.keys_append`, `Sys.keys_subperm` : only `append` makes a command outstanding.
* `Sys.mem_keys_of_step` : a command somebody waits for stays outstanding, unless its result is
  taken, or the step loses it (`Sys.Loses`).
-/

namespace LxApi32

namespace Sys

/-- The queued commands the daemon has not got yet, in the order in which it gets them. -/
def pending (s : Sys) : List CommandListEntry := s.daemon.inHand ++ s.waiting

/-- All commands that are queued, fetched or done. -/
def outstanding (s : Sys) : List CommandListEntry := s.pending ++ (s.fetched ++ s.done)

/-- The driver-side parts of the commands that are queued or fetched, and of those in `d`. -/
def keysWith (s : Sys) (d : List CommandListEntry) : List CommandKey :=
  (s.pending ++ (s.fetched ++ d)).map (·.key)

/-- The driver-side parts of the outstanding commands. -/
def keys (s : Sys) : List CommandKey := s.keysWith s.done

/-- The handles of the outstanding commands. -/
def handles (s : Sys) : List ULONG := s.keys.map (·.hcmd)

/-- Client `i` has queued the command `e` and is still in `LX_dmn_add_command`. -/
def InCall (s : Sys) (i : ℕ) (e : CommandListEntry) : Prop :=
  s.clients i = .appended e ∨ s.clients i = .getResult e

/-- The step drops a command that a client waits for: the daemon is closed while it holds one,
or there is no memory for its result. -/
def Loses (s : Sys) : Act → Prop
  | .closeBegin => ∃ e ∈ s.daemon.inHand ++ s.fetched, e.key.waited
  | .setResults k _ _ alloc => alloc = false ∧ ∃ e, s.fetched[k]? = some e ∧ e.key.waited
  | _ => False

/-- The packets that a step posts to the done list. -/
def postedBy (s : Sys) : Act → List CommandListEntry
  | .setResults k rc _ alloc =>
    match s.fetched[k]? with
    | some e => if e.parmPacket.waited && alloc then [e.withRc rc] else []
    | none => []
  | _ => []

theorem waited_iff {e : CommandListEntry} : e.parmPacket.waited = true ↔ e.key.waited := by
  simp [CmdParmPacket.waited, CommandKey.waited]

theorem not_waited_iff {e : CommandListEntry} : e.parmPacket.waited = false ↔ ¬ e.key.waited := by
  rw [← waited_iff, Bool.not_eq_true]

theorem mem_keys {s : Sys} {k : CommandKey} : k ∈ s.keys ↔ ∃ e ∈ s.outstanding, e.key = k :=
  List.mem_map

theorem mem_outstanding {s : Sys} {e : CommandListEntry} :
    e ∈ s.outstanding ↔
      e ∈ s.daemon.inHand ∨ e ∈ s.waiting ∨ e ∈ s.fetched ∨ e ∈ s.done := by
  simp only [outstanding, pending, List.mem_append, or_assoc]

@[simp] theorem inHand_wakeDaemon (pc : DaemonPc) : (wakeDaemon pc).inHand = pc.inHand := by
  cases pc <;> rfl

/-- What is pending and fetched decides the keys. -/
theorem keysWith_congr {s s' : Sys} (hp : s'.pending = s.pending) (hf : s'.fetched = s.fetched)
    (d : List CommandListEntry) : s'.keysWith d = s.keysWith d := by
  simp only [keysWith, hp, hf]

theorem keysWith_append (s : Sys) (i : ℕ) (e : CommandListEntry) (d : List CommandListEntry) :
    ((s.append i e).keysWith d).Perm
      ((e.queuedAs (nextCmdhandle s.cmdhandle) s.queued).key :: s.keysWith d) := by
  have : (s.append i e).pending ++ ((s.append i e).fetched ++ d) =
      s.pending ++ e.queuedAs (nextCmdhandle s.cmdhandle) s.queued :: (s.fetched ++ d) := by
    simp [pending, append, setClient]
  rw [keysWith, this]
  exact (List.perm_middle).map _

theorem keys_append (s : Sys) (i : ℕ) (e : CommandListEntry) :
    (s.append i e).keys.Perm
      ((e.queuedAs (nextCmdhandle s.cmdhandle) s.queued).key :: s.keys) :=
  keysWith_append s i e s.done

theorem pending_pop {s : Sys} {pa : GetArgs} {pe : CommandListEntry}
    {rest : List CommandListEntry} (hd : s.daemon = .lock pa) (hw : s.waiting = pe :: rest) :
    pending { s with waiting := rest, daemon := .popped pa pe } = s.pending := by
  simp [pending, hd, hw, DaemonPc.inHand]

theorem pending_pushBack {s : Sys} {pa : GetArgs} {pe : CommandListEntry}
    (hd : s.daemon = .popped pa pe) :
    pending { s with waiting := pe :: s.waiting, daemon := .user } = s.pending := by
  simp [pending, hd, DaemonPc.inHand]

theorem pending_runOn (s : Sys) (i : ℕ) (e : CommandListEntry) :
    (s.runOn i e).pending = s.pending := by
  simp [pending, runOn, setClient]

theorem pending_setPc {s : Sys} {pc : DaemonPc} (h : pc.inHand = []) (h' : s.daemon.inHand = []) :
    pending { s with daemon := pc } = s.pending := by
  simp [pending, h, h']

/-- Delivery moves a command from the queue to the daemon. -/
theorem keysWith_deliver {s : Sys} {pa : GetArgs} {pe : CommandListEntry}
    (hd : s.daemon = .popped pa pe) (d : List CommandListEntry) :
    (keysWith { s with fetched := s.fetched ++ [pe.fetchedBy pa], daemon := .user } d).Perm
      (s.keysWith d) := by
  have : keysWith { s with fetched := s.fetched ++ [pe.fetchedBy pa], daemon := .user } d =
      (s.waiting ++ s.fetched).map (·.key) ++ pe.key :: d.map (·.key) := by
    simp [keysWith, pending, DaemonPc.inHand]
  rw [this]
  refine List.perm_middle.trans (.of_eq ?_)
  simp [keysWith, pending, hd, DaemonPc.inHand]

/-- Posting moves a command from the daemon to the done list. -/
theorem keysWith_post {s : Sys} {k : ℕ} {e : CommandListEntry} {rc : ULONG} {mem : Mem}
    {done : List CommandListEntry} (hk : s.fetched[k]? = some e) (d : List CommandListEntry) :
    (keysWith { s with fetched := s.fetched.eraseIdx k, done := done, mem := mem }
      (d ++ [e.withRc rc])).Perm (s.keysWith d) := by
  have hperm := (Pick.perm hk).symm
  have h₁ : keysWith { s with fetched := s.fetched.eraseIdx k, done := done, mem := mem }
      (d ++ [e.withRc rc]) =
      (s.pending ++ (s.fetched.eraseIdx k ++ (d ++ [e]))).map (·.key) := by
    simp [keysWith, pending]
  rw [h₁, keysWith]
  refine List.Perm.map _ (List.Perm.append_left _ ?_)
  have h₂ : (s.fetched.eraseIdx k ++ (d ++ [e])).Perm (e :: (s.fetched.eraseIdx k ++ d)) := by
    rw [← List.append_assoc]
    exact List.perm_append_singleton ..
  exact h₂.trans (hperm.append_right _)

theorem keysWith_postNothing (s : Sys) (k : ℕ) (d : List CommandListEntry) :
    List.Sublist (keysWith { s with fetched := s.fetched.eraseIdx k } d) (s.keysWith d) := by
  refine List.Sublist.map _ (List.Sublist.append_left ?_ _)
  exact (List.eraseIdx_sublist ..).append_right _

/-- The sweep moves the waited commands from the waiting to the done list. -/
theorem keys_closeSweep (s : Sys) (n : ℕ) :
    (s.closeSweep n).keys = (s.daemon.inHand ++ (s.fetched ++ (s.done ++
      s.waiting.filter fun e => e.parmPacket.waited))).map (·.key) := by
  simp [keys, keysWith, pending, closeSweep, Function.comp_def]

/-- The actions that move no command to or from the done list and queue none. -/
def Act.KeepsKeys : Act → Prop
  | .append _ | .poll _ | .setResults .. | .closeBegin | .closeSweep => False
  | _ => True

theorem done_of_keepsKeys {s s' : Sys} {a : Act} (hst : Step s a s') (ha : Act.KeepsKeys a) :
    s'.done = s.done := by
  cases hst <;> first | rfl | cases ha

theorem keysWith_perm {s s' : Sys} {a : Act} (hst : Step s a s') (ha : Act.KeepsKeys a)
    (d : List CommandListEntry) : (s'.keysWith d).Perm (s.keysWith d) := by
  cases hst with
  | callNoDaemon => exact .rfl
  | callNoMemory => exact .rfl
  | callFilled => exact .rfl
  | runOn => exact .of_eq (keysWith_congr (pending_runOn ..) rfl d)
  | @cmdGet cur pa hd =>
    have hd' : s.daemon.inHand = [] := by rcases hd with hd | hd <;> rw [hd] <;> rfl
    have h : pending { { s with vars := s.vars.attach cur } with daemon := .test pa } = s.pending :=
      pending_setPc rfl hd'
    exact .of_eq (keysWith_congr h rfl d)
  | testEmpty hd => exact .of_eq (keysWith_congr (pending_setPc rfl (by rw [hd]; rfl)) rfl d)
  | testFull hd => exact .of_eq (keysWith_congr (pending_setPc rfl (by rw [hd]; rfl)) rfl d)
  | register hd => exact .of_eq (keysWith_congr (pending_setPc rfl (by rw [hd]; rfl)) rfl d)
  | block hd => exact .of_eq (keysWith_congr (pending_setPc rfl (by rw [hd]; rfl)) rfl d)
  | woken hd => exact .of_eq (keysWith_congr (pending_setPc rfl (by rw [hd]; rfl)) rfl d)
  | popNone hd => exact .of_eq (keysWith_congr (pending_setPc rfl (by rw [hd]; rfl)) rfl d)
  | pop hd hw => exact .of_eq (keysWith_congr (pending_pop hd hw) rfl d)
  | pushBack hd => exact .of_eq (keysWith_congr (pending_pushBack hd) rfl d)
  | deliver hd => exact keysWith_deliver hd d
  | signal hd => exact .of_eq (keysWith_congr (pending_setPc rfl (by rw [hd]; rfl)) rfl d)
  | resched hd => exact .of_eq (keysWith_congr (pending_setPc rfl (by rw [hd]; rfl)) rfl d)
  | append => cases ha
  | pollNone => cases ha
  | pollTake => cases ha
  | post => cases ha
  | postNothing => cases ha
  | closeBegin => cases ha
  | closeSweep => cases ha

theorem keys_perm {s s' : Sys} {a : Act} (hst : Step s a s') (ha : Act.KeepsKeys a) :
    s'.keys.Perm s.keys := by
  rw [keys, done_of_keepsKeys hst ha]
  exact keysWith_perm hst ha s.done

/-- No step but `append` makes a command outstanding. -/
theorem keys_subperm {s s' : Sys} {a : Act} (hst : Step s a s') (ha : ∀ i, a ≠ .append i) :
    s'.keys.Subperm s.keys := by
  have hst' := hst
  cases hst with
  | append => exact absurd rfl (ha _)
  | pollNone => exact .refl _
  | pollTake =>
    refine (List.Sublist.map _ (List.Sublist.append_left ?_ _)).subperm
    exact List.Sublist.append_left List.eraseP_sublist _
  | post hd hk => exact (keysWith_post hk s.done).subperm
  | postNothing => exact (keysWith_postNothing ..).subperm
  | closeBegin =>
    -- what the daemon has in its hands is lost
    refine (List.Sublist.map _ ?_).subperm
    exact (List.sublist_append_right _ _).append (List.sublist_append_right _ _)
  | closeSweep =>
    have hw : (s.daemon.inHand ++ (s.fetched ++ (s.done ++ s.waiting))).Perm s.outstanding := by
      simp only [outstanding, pending, List.append_assoc]
      refine List.Perm.append_left _ ?_
      rw [← List.append_assoc]
      exact List.perm_append_comm
    rw [keys_closeSweep]
    refine List.Subperm.trans (List.Sublist.map _ ?_).subperm (hw.map _).subperm
    refine List.Sublist.append_left (List.Sublist.append_left ?_ _) _
    exact List.Sublist.append_left List.filter_sublist _
  | _ => exact (keys_perm hst' trivial).subperm

/-- Posting is the only way out of the daemon's hands, and everything else but `append` at most
forgets a command. -/
theorem keysWith_posted {s s' : Sys} {a : Act} (hst : Step s a s') (ha : ∀ i, a ≠ .append i)
    (hb : a ≠ .closeBegin) (hs : a ≠ .closeSweep) (l : List CommandListEntry) :
    (s'.keysWith (l ++ s.postedBy a)).Subperm (s.keysWith l) := by
  have hst' := hst
  cases hst with
  | append => exact absurd rfl (ha _)
  | closeBegin => exact absurd rfl hb
  | closeSweep => exact absurd rfl hs
  | pollNone => simp only [postedBy, List.append_nil]; exact .refl _
  | pollTake => simp only [postedBy, List.append_nil]; exact .refl _
  | post hd hk hw =>
    simp only [postedBy, hk, hw, Bool.and_self, ↓reduceIte]
    exact (keysWith_post hk l).subperm
  | @postNothing _ e _ _ alloc hd hk hw =>
    have : (e.parmPacket.waited && alloc) = false := by
      rcases hw with hw | hw <;> simp [hw]
    simp only [postedBy, hk, this, Bool.false_eq_true, ↓reduceIte, List.append_nil]
    exact (keysWith_postNothing ..).subperm
  | _ => simp only [postedBy, List.append_nil]; exact (keysWith_perm hst' trivial l).subperm

theorem queued_of_step {s s' : Sys} {a : Act} (hst : Step s a s') (ha : ∀ i, a ≠ .append i) :
    s'.queued = s.queued ∧ s'.cmdhandle = s.cmdhandle := by
  cases hst with
  | append => exact absurd rfl (ha _)
  | _ => exact ⟨rfl, rfl⟩

/-! ### Clients inside a call -/

/-- The client that takes the step, if one does. -/
def Act.client : Act → Option ℕ
  | .call i _ _ | .append i | .runOn i | .poll i => some i
  | _ => none

/-- A client moves only by its own steps. -/
theorem clients_of_step {s s' : Sys} {a : Act} (hst : Step s a s') {j : ℕ}
    (hj : Act.client a ≠ some j) : s'.clients j = s.clients j := by
  have hne : ∀ {i}, Act.client a = some i → j ≠ i := fun h hji => hj (hji ▸ h)
  cases hst with
  | callNoDaemon => exact clients_setClient_ne _ _ (hne rfl)
  | callNoMemory => exact clients_setClient_ne _ _ (hne rfl)
  | callFilled => exact clients_setClient_ne _ _ (hne rfl)
  | append => exact clients_setClient_ne s _ (hne rfl)
  | runOn => exact clients_setClient_ne s _ (hne rfl)
  | pollTake => exact clients_setClient_ne s _ (hne rfl)
  | _ => rfl

theorem InCall.of_setClient {s : Sys} {i j : ℕ} {c : Client} {e : CommandListEntry}
    (h : (s.setClient i c).InCall j e) (hc : c ≠ .appended e) (hc' : c ≠ .getResult e) :
    j ≠ i ∧ s.InCall j e := by
  have hji : j ≠ i := by
    rintro rfl
    rcases h with h | h
    · exact hc ((clients_setClient_self ..).symm.trans h)
    · exact hc' ((clients_setClient_self ..).symm.trans h)
  refine ⟨hji, ?_⟩
  simpa only [InCall, clients_setClient_ne _ _ hji] using h

theorem inCall_runOn {s : Sys} {i j : ℕ} {e e' : CommandListEntry}
    (hc : s.clients i = .appended e) (h : (s.runOn i e).InCall j e') : s.InCall j e' := by
  by_cases hji : j = i
  · subst hji
    have hself : (s.runOn j e).clients j = _ := clients_setClient_self s j _
    simp only [InCall, hself] at h
    split at h
    · obtain rfl : e = e' := by simpa using h
      exact .inl hc
    · simp at h
  · simpa only [InCall, runOn, clients_setClient_ne s _ hji] using h

/-- A client comes to be inside a call by queuing its entry. -/
theorem inCall_of_step {s s' : Sys} {a : Act} (hst : Step s a s') {j : ℕ} {e : CommandListEntry}
    (h : s'.InCall j e) :
    s.InCall j e ∨ ∃ args, a = .append j ∧ s.clients j = .filled args ∧
      e = args.entry.queuedAs (nextCmdhandle s.cmdhandle) s.queued := by
  cases hst with
  | callNoDaemon => exact .inl (InCall.of_setClient h (by simp) (by simp)).2
  | callNoMemory => exact .inl (InCall.of_setClient h (by simp) (by simp)).2
  | callFilled => exact .inl (InCall.of_setClient h (by simp) (by simp)).2
  | @append i args hc =>
    by_cases hji : j = i
    · subst hji
      have hself : (s.append j args.entry).clients j = _ := clients_setClient_self s j _
      simp only [InCall, hself] at h
      obtain rfl : _ = e := by simpa using h
      exact .inr ⟨args, rfl, hc, rfl⟩
    · refine .inl ?_
      simpa only [InCall, append, clients_setClient_ne s _ hji] using h
  | runOn hc => exact .inl (inCall_runOn hc h)
  | pollTake => exact .inl (InCall.of_setClient h (by simp) (by simp)).2
  | _ => exact .inl h

/-- A client whose result is taken is out of its call. -/
theorem InCall.ne_of_out {s : Sys} {i j : ℕ} {e : CommandListEntry}
    {r : Option (ULONG × CmdParmPacket)} (h : s.InCall j e) (hi : s.clients i = .out r) :
    j ≠ i := by
  rintro rfl
  rcases h with h | h <;> rw [hi] at h <;> cases h

theorem waited_setClient {s : Sys} (h : ∀ i e, s.clients i = .getResult e → e.key.waited) {i : ℕ}
    {c : Client} (hc : ∀ e, c = .getResult e → e.key.waited) {j : ℕ} {e : CommandListEntry}
    (hj : (s.setClient i c).clients j = .getResult e) : e.key.waited := by
  by_cases hji : j = i
  · subst hji
    exact hc e ((clients_setClient_self ..).symm.trans hj)
  · exact h j e ((clients_setClient_ne _ _ hji).symm.trans hj)

/-- A client waits only for a command with a block. -/
theorem waited_of_step {s s' : Sys} {a : Act} (hst : Step s a s')
    (h : ∀ i e, s.clients i = .getResult e → e.key.waited) {j : ℕ} {e : CommandListEntry}
    (hj : s'.clients j = .getResult e) : e.key.waited := by
  cases hst with
  | callNoDaemon => exact waited_setClient h (by simp) hj
  | callNoMemory => exact waited_setClient h (by simp) hj
  | callFilled => exact waited_setClient h (by simp) hj
  | append => exact @waited_setClient s h _ _ (by simp) j e hj
  | runOn =>
    refine @waited_setClient s h _ _ ?_ j e hj
    intro e' he'
    split_ifs at he' with hw
    cases he'
    exact waited_iff.1 hw
  | pollTake => exact @waited_setClient s h _ _ (by simp) j e hj
  | _ => exact h j e hj

/-- **A command somebody waits for stays outstanding** until its result is taken, unless the
step loses it. -/
theorem mem_keys_of_step {s s' : Sys} {a : Act} (hst : Step s a s') (hl : ¬ s.Loses a)
    {k : CommandKey} (hk : k ∈ s.keys) (hw : k.waited)
    (hp : ∀ i e r, a = .poll i → s.clients i = .getResult e → s'.clients i = .out r →
      k.hcmd ≠ e.parmPacket.hcmd) : k ∈ s'.keys := by
  have hst' := hst
  obtain ⟨e, he, rfl⟩ := mem_keys.1 hk
  rw [mem_outstanding] at he
  cases hst with
  | append => exact (keys_append ..).symm.subset (List.mem_cons_of_mem _ hk)
  | pollNone => exact hk
  | @pollTake i e' pe hc =>
    have hdone : e ∈ s.done → e ∈ s.done.eraseP
        fun pe => pe.parmPacket.hcmd == e'.parmPacket.hcmd := by
      refine (List.mem_eraseP_of_neg ?_).2
      simpa using hp i e' _ rfl hc (clients_setClient_self ..)
    refine mem_keys.2 ⟨e, mem_outstanding.2 ?_, rfl⟩
    rcases he with he | he | he | he
    · exact .inl he
    · exact .inr (.inl he)
    · exact .inr (.inr (.inl he))
    · exact .inr (.inr (.inr (hdone he)))
  | post hd hk' => exact (keysWith_post hk' s.done).symm.subset hk
  | @postNothing n e' rc data alloc hd hk' hw' =>
    -- the posted packet is one nobody waits for, so it is not `e`
    have hne : e ≠ e' := by
      rintro rfl
      rcases hw' with hw' | rfl
      · exact not_waited_iff.1 hw' hw
      · exact hl ⟨rfl, _, hk', hw⟩
    refine mem_keys.2 ⟨e, mem_outstanding.2 ?_, rfl⟩
    rcases he with he | he | he | he
    · exact .inl he
    · exact .inr (.inl he)
    · refine .inr (.inr (.inl ?_))
      exact (List.mem_cons.1 ((Pick.perm hk').subset he)).resolve_left hne
    · exact .inr (.inr (.inr he))
  | closeBegin =>
    have hno : ∀ e' ∈ s.daemon.inHand ++ s.fetched, ¬ e'.key.waited := fun e' he' h =>
      hl ⟨e', he', h⟩
    refine mem_keys.2 ⟨e, mem_outstanding.2 ?_, rfl⟩
    rcases he with he | he | he | he
    · exact absurd hw (hno _ (List.mem_append_left _ he))
    · exact .inr (.inl he)
    · exact absurd hw (hno _ (List.mem_append_right _ he))
    · exact .inr (.inr (.inr he))
  | closeSweep =>
    rw [keys_closeSweep]
    refine List.mem_map_of_mem ?_
    simp only [List.mem_append, List.mem_filter, waited_iff]
    rcases he with he | he | he | he
    · exact .inl he
    · exact .inr (.inr (.inr ⟨he, hw⟩))
    · exact .inr (.inl he)
    · exact .inr (.inr (.inl he))
  | _ => exact (keys_perm hst' trivial).symm.subset hk

end Sys

end LxApi32
