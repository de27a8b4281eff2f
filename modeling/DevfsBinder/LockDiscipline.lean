import DevfsBinder.ReadTermination

/-!
# The driver lock

One mutex guards the whole driver.  Between two actions it is with the thread
whose read is awake and with nobody else (`lock_held_iff`), so at most one read
is awake at a time, and a thread never sleeps with the lock.  It is not kept for
ever either: a thread that has it and is scheduled lets go of it, by going to
sleep or by leaving its read (`lock_released`), whatever the other threads try
meanwhile.
-/

namespace Binder

namespace Driver

variable {s : Driver} {th : ThreadId}

theorem Reachable.thread_of_awake (h : Reachable s) {rc : ReadCall} (hrc : s.calls th = some rc)
    (hawake : rc.asleep = false) : ∃ thread, s.threads th = some thread := by
  have hknown := h.attended.known th rc (standing_reads_awake hrc hawake)
  simpa [standing, Option.isSome_iff_exists] using hknown

theorem status_of_awake {rc : ReadCall} (h : rc.asleep = false) :
    rc.status = .running ∨ ∃ error, rc.status = .returned error := by
  cases hstatus : rc.status with
  | running => exact .inl rfl
  | returned error => exact .inr ⟨error, rfl⟩
  | asleep chan woken => simp [ReadCall.asleep, hstatus] at h

/-- **Who has the lock.**  Between two actions the driver lock is with a thread if
and only if the thread is in a read and awake. -/
theorem lock_held_iff (h : Reachable s) (th : ThreadId) :
    s.lockedBy = some th ↔ ∃ rc, s.calls th = some rc ∧ rc.asleep = false := by
  constructor
  · intro hlock
    obtain ⟨rc', hrc', hawake⟩ := h.attended.awake th hlock
    obtain ⟨rc, hrc, rfl⟩ := Option.map_eq_some_iff.mp hrc'
    rw [ReadCall.unwoken_asleep] at hawake
    exact ⟨rc, hrc, hawake⟩
  · intro ⟨rc, hrc, hawake⟩
    exact h.attended.locked th rc (standing_reads_awake hrc hawake) hawake

/-! ## The lock comes free -/

/-- A turn keeps the lock or drops it. -/
theorem readTurn_lock (env : Env) (s : Driver) (th : ThreadId) (thread : Thread)
    (rc : ReadCall) : (readTurn env s th thread rc).lockedBy = s.lockedBy ∨
      (readTurn env s th thread rc).lockedBy = none := by
  unfold readTurn
  split
  · unfold readIdle
    split
    · exact .inl rfl
    simp only
    split
    · exact .inr rfl
    · exact .inr rfl
  · rename_i w fromProc _
    have hdrv := (s.dequeueWork w).readWork_standing env thread.proc th w rc
    obtain ⟨s₁, rc', heq, hmoved, -⟩ := readNext_eq env
      (readWork env (s.dequeueWork w) thread.proc th w rc) th thread.proc w fromProc
    rw [hdrv] at hmoved
    simp only
    rw [heq]
    exact .inl hmoved.lockedBy

/-- The lock does not pass from one thread to another: it is dropped in between. -/
theorem Reachable.act_lock (h : Reachable s) (hlock : s.lockedBy = some th) (a : Action) :
    (s.act a).lockedBy = some th ∨ (s.act a).lockedBy = none := by
  obtain ⟨rc, hrc, hawake⟩ := (lock_held_iff h th).mp hlock
  by_cases hturn : ∃ env, a = .readTurn env th
  · obtain ⟨env, rfl⟩ := hturn
    apply withCall_rule (P := fun s' => s'.lockedBy = some th ∨ s'.lockedBy = none)
    · exact .inl hlock
    · intro thread rc' _ _ _ _
      have hnext := readTurn_lock env s th thread rc'
      rw [hlock] at hnext
      exact hnext
  by_cases hleave : a = .leave th
  · subst hleave
    apply withCall_rule (P := fun s' => s'.lockedBy = some th ∨ s'.lockedBy = none)
    · exact .inl hlock
    · exact fun _ _ _ _ _ _ => .inr rfl
  · rw [h.act_of_awake hrc hawake (fun env heq => hturn ⟨env, heq⟩) hleave]
    exact .inl hlock

theorem Reachable.after (h : Reachable s) (as : ℕ → Action) (n : ℕ) :
    Reachable (s.after as n) := by
  induction n with
  | zero => exact h
  | succ n ih => exact Reaches.step (as n) ih trivial

theorem after_add (s : Driver) (as : ℕ → Action) (m n : ℕ) :
    s.after as (m + n) = (s.after as m).after (fun i => as (m + i)) n := by
  induction n with
  | zero => rfl
  | succ n ih => rw [← Nat.add_assoc, Driver.after, ih, Driver.after]

/-- As long as the lock has not been free it is with the thread that had it. -/
theorem Reachable.lock_kept (h : Reachable s) (hlock : s.lockedBy = some th)
    (as : ℕ → Action) (n : ℕ) :
    (∃ m, (s.after as m).lockedBy = none) ∨ (s.after as n).lockedBy = some th := by
  induction n with
  | zero => exact .inr hlock
  | succ n ih =>
      rcases ih with hfree | hkept
      · exact .inl hfree
      · rcases (h.after as n).act_lock hkept (as n) with hstill | hdropped
        · exact .inr hstill
        · exact .inl ⟨n + 1, hdropped⟩

/-- The read of `th` keeps being given the chance to leave. -/
def KeepsLeaving (as : ℕ → Action) (th : ThreadId) : Prop := ∀ m, ∃ i, m ≤ i ∧ as i = .leave th

/-- A read that has returned stays as it is until its thread leaves. -/
theorem Reachable.act_of_returned (h : Reachable s) {rc : ReadCall} {error : Option Errno}
    (hrc : s.calls th = some rc) (hreturned : rc.status = .returned error) {a : Action}
    (hleave : a ≠ .leave th) : s.act a = s := by
  by_cases hturn : ∃ env, a = .readTurn env th
  · obtain ⟨env, rfl⟩ := hturn
    apply withCall_rule (P := fun s' => s' = s) rfl
    intro thread rc' _ _ hrc' hrun
    cases hrc.symm.trans hrc'
    rw [hreturned] at hrun
    cases hrun
  · have hawake := asleep_of_status (.inr ⟨error, hreturned⟩)
    exact h.act_of_awake hrc hawake (fun env heq => hturn ⟨env, heq⟩) hleave

/-- When the thread of a read that has returned leaves, the lock is free. -/
theorem Reachable.free_of_returned (h : Reachable s) {rc : ReadCall} {error : Option Errno}
    (hrc : s.calls th = some rc) (hreturned : rc.status = .returned error) (as : ℕ → Action)
    {i : ℕ} (hi : as i = .leave th) : ∃ n, (s.after as n).lockedBy = none := by
  have hawake := asleep_of_status (.inr ⟨error, hreturned⟩)
  obtain ⟨thread, hth⟩ := h.thread_of_awake hrc hawake
  have hleft : (s.act (.leave th)).lockedBy = none := by
    rw [act, withCall, hth, hrc]
    simp only [hreturned, ReadStatus.returned?]
    rfl
  -- nothing happens until the first time the thread may leave
  induction i generalizing as with
  | zero => exact ⟨1, by rw [Driver.after, Driver.after, hi, hleft]⟩
  | succ i ih =>
      by_cases hfirst : as 0 = .leave th
      · exact ⟨1, by rw [Driver.after, Driver.after, hfirst, hleft]⟩
      · obtain ⟨n, hn⟩ := ih (fun j => as (j + 1)) hi
        refine ⟨n + 1, ?_⟩
        rw [after_succ, h.act_of_returned hrc hreturned hfirst]
        exact hn

/-- A thread that has the lock and is scheduled drops it at some point. -/
theorem Reachable.lock_freed (h : Reachable s) (hlock : s.lockedBy = some th) {as : ℕ → Action}
    (hturns : KeepsTurning as th) (hleaves : KeepsLeaving as th) :
    ∃ n, (s.after as n).lockedBy = none := by
  obtain ⟨rc, hrc, hawake⟩ := (lock_held_iff h th).mp hlock
  obtain ⟨thread, hth⟩ := h.thread_of_awake hrc hawake
  -- the read stops running at some point
  obtain ⟨n, rc', hrc', hstopped⟩ : ∃ n rc', (s.after as n).calls th = some rc' ∧
      rc'.status ≠ .running := by
    by_cases hrun : rc.status = .running
    · exact h.ends_of_backlog _ rfl hth hrc hrun hturns
    · exact ⟨0, rc, hrc, hrun⟩
  -- if the lock has not been free until then the thread has it, so the read is over
  rcases h.lock_kept hlock as n with hfree | hkept
  · exact hfree
  obtain ⟨rc'', hrc'', hawake'⟩ := (lock_held_iff (h.after as n) th).mp hkept
  cases hrc'.symm.trans hrc''
  rcases status_of_awake hawake' with hrun | ⟨error, hreturned⟩
  · exact absurd hrun hstopped
  · obtain ⟨i, hi, hleave⟩ := hleaves n
    have hnext : as (n + (i - n)) = .leave th := by
      rw [Nat.add_sub_cancel' hi]
      exact hleave
    obtain ⟨m, hm⟩ := (h.after as n).free_of_returned hrc' hreturned
      (fun j => as (n + j)) hnext
    refine ⟨n + m, ?_⟩
    rw [after_add]
    exact hm

/-- **The driver lock is let go of.**  A thread that has the lock and is scheduled,
so that its read is given turns and may leave when it has returned, drops the lock
after finitely many actions, whatever the other threads and processes try in
between and however the copies to the client fare.  By then it sleeps or has left the
read. -/
theorem lock_released (h : Reachable s) (hlock : s.lockedBy = some th) {as : ℕ → Action}
    (hturns : KeepsTurning as th) (hleaves : KeepsLeaving as th) :
    ∃ n, (s.after as n).lockedBy = none ∧
      ∀ rc, (s.after as n).calls th = some rc → rc.asleep = true := by
  obtain ⟨n, hfree⟩ := h.lock_freed hlock hturns hleaves
  refine ⟨n, hfree, ?_⟩
  intro rc hrc
  cases hasleep : rc.asleep with
  | true => rfl
  | false =>
      have hheld := (lock_held_iff (h.after as n) th).mpr ⟨rc, hrc, hasleep⟩
      rw [hfree] at hheld
      cases hheld

/-- The thread's turns and its chances to leave alternate. -/
theorem lock_released_reading :
    ∃ n, (readingState.after (fun i => if i % 2 = 0 then .readTurn {} 6 else .leave 6) n).lockedBy
        = none ∧
      ∀ rc, (readingState.after (fun i => if i % 2 = 0 then .readTurn {} 6 else .leave 6) n).calls 6
        = some rc → rc.asleep = true := by
  have hlock : readingState.lockedBy = some 6 := by decide +kernel
  apply lock_released (Reachable.run .init _) hlock
  · exact fun m => ⟨2 * m, by omega, {}, if_pos (by omega)⟩
  · exact fun m => ⟨2 * m + 1, by omega, if_neg (by omega)⟩

end Driver

end Binder
