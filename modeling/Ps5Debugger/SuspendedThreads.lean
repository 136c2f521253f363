import Mathlib.Data.List.TakeWhile
import Ps5Debugger.Lib.Machine

/-!
# The threads a client has suspended

`DebuggerRpcService.kt` stops a process by suspending its threads one after the other, and
keeps the ids of those it suspended in `suspendedLwpids`, so that a later resume lets exactly
them run. `setAllThreadsSuspended` leaves its loop at the first thread whose RPC fails; a stop
that fails half-way resumes what it had suspended, and only a full success reaches the set.

The RPCs are the environment. A suspend (resume) RPC that answers `true` has set (cleared) the
flag of its thread, one that answers `false` has left it; the answers are arbitrary, one for
each thread of a loop (the threads of a loop are distinct). What a detach lets run is arbitrary
too.
-/

namespace Ps5Debugger

open Lib

namespace DebuggerRpc

/-- A client's bookkeeping beside the threads it is about. -/
structure Session : Type where
  /-- the suspended flag of each thread, in the target -/
  flags : Int → Bool
  /-- the threads suspended by this client and not since resumed -/
  mine : Int → Bool
  /-- the set the client keeps, in insertion order -/
  suspendedLwpids : List Int

/-- The outcome of the RPCs on the threads `ts`. -/
def Session.mark (s : Session) (suspended : Bool) (ts : List Int) : Session :=
  { s with
    flags := fun t => if t ∈ ts then suspended else s.flags t
    mine := fun t => if t ∈ ts then suspended else s.mine t }

/-! ## The calls -/

/-- `suspendThread`, answered by `success`. -/
def suspendThread (s : Session) (lwpid : Int) (success : Bool) : Session × Bool :=
  if success then (s.mark true [lwpid], true) else (s, false)

/-- `resumeThread`. -/
def resumeThread (s : Session) (lwpid : Int) (success : Bool) : Session × Bool :=
  if success then (s.mark false [lwpid], true) else (s, false)

/-- The loop over the targets: the session, `changed`, and whether every RPC succeeded. -/
def changeThreads (suspended : Bool) (answer : Int → Bool) :
    Session → List Int → List Int → Session × List Int × Bool
  | s, [], changed => (s, changed, true)
  | s, lwpid :: targets, changed =>
    let r := if suspended then suspendThread s lwpid (answer lwpid)
      else resumeThread s lwpid (answer lwpid)
    if r.2 then changeThreads suspended answer r.1 targets (changed ++ [lwpid])
    else (r.1, changed, false)

/-- `changed.forEach { resumeThread(it) }`. -/
def rollBack (undone : Int → Bool) (s : Session) (changed : List Int) : Session :=
  changed.foldl (fun s lwpid => (resumeThread s lwpid (undone lwpid)).1) s

/-- `suspendedLwpids.addAll`, on a linked set. -/
def addAll (set changed : List Int) : List Int := set ++ changed.filter (· ∉ set)

/-- `suspendedLwpids.removeAll`. -/
def removeAll (set changed : List Int) : List Int := set.filter (· ∉ changed)

/-- `setAllThreadsSuspended`. The first answers are those of the loop, the second those of the
roll-back. -/
def setAllThreadsSuspended (s : Session) (suspended : Bool) (threads : List Int)
    (answer undone : Int → Bool) : Session × Bool :=
  let targets := if suspended then threads.eraseDups
    else if s.suspendedLwpids.isEmpty then threads.eraseDups else s.suspendedLwpids
  if targets.isEmpty then (s, false)
  else
    let r := changeThreads suspended answer s targets []
    if r.2.2 then
      ({ r.1 with suspendedLwpids :=
          if suspended then addAll r.1.suspendedLwpids r.2.1 else removeAll r.1.suspendedLwpids r.2.1 }, true)
    else (if suspended then rollBack undone r.1 r.2.1 else r.1, false)

/-- `detach`, answered by `success`. The threads of `released` run again, whatever the answer. -/
def detach (s : Session) (success : Bool) (released : Int → Bool) : Session × Bool :=
  ({ flags := fun t => s.flags t && !released t
     mine := fun t => s.mine t && !released t
     suspendedLwpids := if success then [] else s.suspendedLwpids }, success)

/-- The calls of the debugger view, with what the environment does to them. -/
inductive Call : Type where
  | stopProcess (threads : List Int) (answer undone : Int → Bool)
  | resumeProcess (threads : List Int) (answer : Int → Bool)
  | detach (success : Bool) (released : Int → Bool)

/-- One call. -/
def perform (s : Session) : Call → Session × Bool
  | .stopProcess threads answer undone => setAllThreadsSuspended s true threads answer undone
  | .resumeProcess threads answer => setAllThreadsSuspended s false threads answer fun _ => false
  | .detach success released => DebuggerRpc.detach s success released

/-- A service that has suspended nothing yet, over threads with any flags. -/
def Session.fresh (flags : Int → Bool) : Session := ⟨flags, fun _ => false, []⟩

/-! ## What the loops do -/

variable {s : Session}

@[simp] theorem Session.mark_flags (s : Session) (b : Bool) (ts : List Int) (t : Int) :
    (s.mark b ts).flags t = if t ∈ ts then b else s.flags t := rfl

@[simp] theorem Session.mark_mine (s : Session) (b : Bool) (ts : List Int) (t : Int) :
    (s.mark b ts).mine t = if t ∈ ts then b else s.mine t := rfl

@[simp] theorem Session.mark_suspendedLwpids (s : Session) (b : Bool) (ts : List Int) :
    (s.mark b ts).suspendedLwpids = s.suspendedLwpids := rfl

theorem Session.mark_mark (s : Session) (b : Bool) (ts us : List Int) :
    (s.mark b ts).mark b us = s.mark b (ts ++ us) := by
  have hmem (f : Int → Bool) (t : Int) : (if t ∈ us then b else if t ∈ ts then b else f t) =
      if t ∈ ts ++ us then b else f t := by
    by_cases hu : t ∈ us <;> by_cases ht : t ∈ ts <;> simp [hu, ht]
  rw [Session.mark, Session.mark, Session.mark]
  congr 1
  · exact funext (hmem s.flags)
  · exact funext (hmem s.mine)

@[simp] theorem Session.mark_nil (s : Session) (b : Bool) : s.mark b [] = s := by
  simp [Session.mark]

/-- The loop changes the threads before the first failure, and succeeds if there is none. -/
theorem changeThreads_eq (suspended : Bool) (answer : Int → Bool) (targets : List Int) :
    ∀ (s : Session) (changed : List Int),
      changeThreads suspended answer s targets changed =
        (s.mark suspended (targets.takeWhile answer), changed ++ targets.takeWhile answer,
          targets.all answer) := by
  induction targets with
  | nil => intro s changed; simp [changeThreads]
  | cons lwpid targets ih =>
    intro s changed
    rw [changeThreads]
    cases ha : answer lwpid with
    | false => cases suspended <;> simp [suspendThread, resumeThread, ha]
    | true =>
      cases suspended <;>
        simp [suspendThread, resumeThread, ha, ih, Session.mark_mark]

/-- The roll-back resumes the threads that let it. -/
theorem rollBack_eq (undone : Int → Bool) (changed : List Int) :
    ∀ s : Session, rollBack undone s changed = s.mark false (changed.filter undone) := by
  induction changed with
  | nil => intro s; simp [rollBack]
  | cons lwpid changed ih =>
    intro s
    have hstep : rollBack undone s (lwpid :: changed) =
        rollBack undone (resumeThread s lwpid (undone lwpid)).1 changed := rfl
    rw [hstep, ih, resumeThread, List.filter_cons]
    cases undone lwpid
    · rfl
    · exact Session.mark_mark s false [lwpid] _

/-- A stop, by its outcome: it does not start, it suspends all, or it undoes what it began. -/
theorem stop_eq (s : Session) (threads : List Int) (answer undone : Int → Bool) :
    setAllThreadsSuspended s true threads answer undone =
      let targets := threads.eraseDups
      let changed := targets.takeWhile answer
      if targets.isEmpty then (s, false)
      else if targets.all answer then
        ({ s.mark true changed with suspendedLwpids := addAll s.suspendedLwpids changed }, true)
      else ((s.mark true changed).mark false (changed.filter undone), false) := by
  simp only [setAllThreadsSuspended, if_true, changeThreads_eq, rollBack_eq, List.nil_append]
  rfl

/-- A resume, by its outcome. -/
theorem resume_eq (s : Session) (threads : List Int) (answer undone : Int → Bool) :
    setAllThreadsSuspended s false threads answer undone =
      let targets := if s.suspendedLwpids.isEmpty then threads.eraseDups else s.suspendedLwpids
      let changed := targets.takeWhile answer
      if targets.isEmpty then (s, false)
      else if targets.all answer then
        ({ s.mark false changed with suspendedLwpids := removeAll s.suspendedLwpids changed }, true)
      else (s.mark false changed, false) := by
  simp only [setAllThreadsSuspended, Bool.false_eq_true, if_false, changeThreads_eq, List.nil_append]
  rfl

theorem takeWhile_of_all {answer : Int → Bool} {ts : List Int} (h : ts.all answer = true) :
    ts.takeWhile answer = ts :=
  List.takeWhile_eq_self_iff.mpr (List.all_eq_true.mp h)

/-! ## Exact bookkeeping -/

/-- The set is the set of the threads suspended by this client and not since resumed. -/
def Exact (s : Session) : Prop := ∀ t, t ∈ s.suspendedLwpids ↔ s.mine t = true

/-- What is claimed of every call: it leaves the bookkeeping exact, and a stop that returns `false`
leaves every flag as it was. -/
def Kept (s : Session) (c : Call) : Prop :=
  Exact (perform s c).1 ∧
    ∀ threads answer undone, c = .stopProcess threads answer undone →
      (perform s c).2 = false → ∀ t, (perform s c).1.flags t = s.flags t

/-- The calls that keep it.

A stop that fails at some thread finds each thread before that one either running, and the
roll-back resumes it, or suspended by this client before, and the roll-back fails to resume it. A
resume of remembered threads fails at the first of them or at none. A detach lets the remembered
threads run exactly if it succeeds. -/
def CallOk (s : Session) : Call → Prop
  | .stopProcess threads answer undone =>
    threads.eraseDups.all answer = true ∨
      ∀ t ∈ threads.eraseDups.takeWhile answer,
        s.flags t = !undone t ∧ (t ∈ s.suspendedLwpids ↔ undone t = false)
  | .resumeProcess _ answer =>
    s.suspendedLwpids.all answer = true ∨ s.suspendedLwpids.takeWhile answer = []
  | .detach success released => ∀ t ∈ s.suspendedLwpids, released t = success

/-- What every call keeps: the bookkeeping is exact, and no thread runs that this client holds. -/
structure Inv (s : Session) : Prop where
  exact : Exact s
  held : ∀ t, s.mine t = true → s.flags t = true

theorem mem_addAll {set changed : List Int} {t : Int} :
    t ∈ addAll set changed ↔ t ∈ set ∨ t ∈ changed := by
  by_cases h : t ∈ set <;> simp [addAll, h]

theorem mem_removeAll {set changed : List Int} {t : Int} :
    t ∈ removeAll set changed ↔ t ∈ set ∧ t ∉ changed := by
  simp [removeAll]

theorem perform_stop_iff (h : Inv s) (threads : List Int) (answer undone : Int → Bool) :
    Kept s (.stopProcess threads answer undone) ↔ CallOk s (.stopProcess threads answer undone) := by
  have hkept : Kept s (.stopProcess threads answer undone) ↔
      Exact (setAllThreadsSuspended s true threads answer undone).1 ∧
        ((setAllThreadsSuspended s true threads answer undone).2 = false →
          ∀ t, (setAllThreadsSuspended s true threads answer undone).1.flags t = s.flags t) :=
    and_congr_right fun _ => ⟨fun hk => hk _ _ _ rfl, fun hk _ _ _ hc => by cases hc; exact hk⟩
  rw [hkept, stop_eq, CallOk]
  dsimp only
  by_cases hempty : threads.eraseDups.isEmpty = true
  · rw [if_pos hempty]
    refine iff_of_true ⟨h.exact, fun _ _ => rfl⟩ (.inl ?_)
    rw [List.isEmpty_iff.mp hempty]
    rfl
  rw [if_neg hempty]
  by_cases hall : threads.eraseDups.all answer = true
  · -- a full stop: the set and the suspended threads grow alike
    rw [if_pos hall]
    refine iff_of_true ⟨fun t => ?_, fun hr => nomatch hr⟩ (.inl hall)
    by_cases ht : t ∈ threads.eraseDups.takeWhile answer <;>
      simp [mem_addAll, ht, h.exact t]
  · -- a stop that fails: only the threads before the failure are touched
    rw [if_neg hall]
    set changed := threads.eraseDups.takeWhile answer
    have hafter (t : Int) (b : Bool) :
        (if t ∈ changed.filter undone then false else if t ∈ changed then true else b) =
          if t ∈ changed then !undone t else b := by
      by_cases ht : t ∈ changed <;> cases hu : undone t <;> simp [ht, hu]
    simp only [Exact, Session.mark_flags, Session.mark_mine, Session.mark_suspendedLwpids, hafter]
    constructor
    · rintro ⟨hexact, hflags⟩
      refine .inr fun t ht => ⟨?_, ?_⟩
      · have := hflags trivial t
        rwa [if_pos ht, eq_comm] at this
      · have := hexact t
        rwa [if_pos ht, Bool.not_eq_true'] at this
    · intro hok
      have hok := hok.resolve_left hall
      constructor
      · intro t
        by_cases ht : t ∈ changed
        · rw [if_pos ht, Bool.not_eq_true']
          exact (hok t ht).2
        · rw [if_neg ht]
          exact h.exact t
      · intro _ t
        by_cases ht : t ∈ changed
        · rw [if_pos ht]
          exact (hok t ht).1.symm
        · rw [if_neg ht]

theorem perform_resume_iff (h : Inv s) (threads : List Int) (answer : Int → Bool) :
    Kept s (.resumeProcess threads answer) ↔ CallOk s (.resumeProcess threads answer) := by
  have hkept : Kept s (.resumeProcess threads answer) ↔
      Exact (setAllThreadsSuspended s false threads answer fun _ => false).1 :=
    ⟨fun hk => hk.1, fun hk => ⟨hk, fun _ _ _ hc => nomatch hc⟩⟩
  rw [hkept, resume_eq, CallOk]
  dsimp only
  by_cases hnone : s.suspendedLwpids.isEmpty = true
  · -- nothing is remembered: whatever is resumed was not this client's
    have hnil := List.isEmpty_iff.mp hnone
    have hmine (t : Int) : s.mine t = false := by
      have := h.exact t
      rw [hnil] at this
      simpa using this
    refine iff_of_true (fun t => ?_) (.inl (by rw [hnil]; rfl))
    rw [if_pos hnone]
    split
    · exact h.exact t
    split <;> simp [hnil, hmine, mem_removeAll]
  rw [if_neg hnone, if_neg hnone]
  by_cases hall : s.suspendedLwpids.all answer = true
  · refine iff_of_true (fun t => ?_) (.inl hall)
    rw [if_pos hall, takeWhile_of_all hall]
    by_cases ht : t ∈ s.suspendedLwpids
    · simp [mem_removeAll, ht]
    · have := h.exact t
      simp [mem_removeAll, ht] at this ⊢
      exact this
  · -- a resume that fails: what ran before the failure is still in the set
    rw [if_neg hall]
    simp only [Exact, Session.mark_mine, Session.mark_suspendedLwpids, hall, Bool.false_eq_true, false_or]
    constructor
    · intro hexact
      refine List.eq_nil_iff_forall_not_mem.mpr fun t ht => ?_
      have := hexact t
      rw [if_pos ht] at this
      exact Bool.false_ne_true (this.mp ((List.takeWhile_prefix answer).subset ht))
    · intro hnil t
      rw [hnil, if_neg List.not_mem_nil]
      exact h.exact t

theorem perform_detach_iff (h : Inv s) (success : Bool) (released : Int → Bool) :
    Kept s (.detach success released) ↔ CallOk s (.detach success released) := by
  have hkept : Kept s (.detach success released) ↔ Exact (detach s success released).1 :=
    ⟨fun hk => hk.1, fun hk => ⟨hk, fun _ _ _ hc => nomatch hc⟩⟩
  rw [hkept, CallOk]
  refine ⟨fun hexact t ht => ?_, fun hok t => ?_⟩
  · have hm := (h.exact t).mp ht
    have := hexact t
    cases success <;> simp_all [detach]
  · have ht := h.exact t
    have := hok t
    cases success <;> cases hm : s.mine t <;> simp_all [detach]

/-- **One call.** From exact bookkeeping a call is as claimed exactly when it is `CallOk`. -/
theorem kept_iff (h : Inv s) (c : Call) : Kept s c ↔ CallOk s c := by
  cases c with
  | stopProcess threads answer undone => exact perform_stop_iff h threads answer undone
  | resumeProcess threads answer => exact perform_resume_iff h threads answer
  | detach success released => exact perform_detach_iff h success released

/-- No call lets a thread run without clearing this client's hold on it. -/
theorem perform_held (h : ∀ t, s.mine t = true → s.flags t = true) (c : Call) :
    ∀ t, (perform s c).1.mine t = true → (perform s c).1.flags t = true := by
  have hmark {u : Session} (hu : ∀ t, u.mine t = true → u.flags t = true) (b : Bool) (ts : List Int) :
      ∀ t, (u.mark b ts).mine t = true → (u.mark b ts).flags t = true := by
    intro t
    rw [Session.mark_mine, Session.mark_flags]
    split
    · exact id
    · exact hu t
  cases c with
  | stopProcess threads answer undone =>
    rw [perform, stop_eq]
    dsimp only
    split
    · exact h
    split
    · exact hmark h true _
    · exact hmark (hmark h true _) false _
  | resumeProcess threads answer =>
    rw [perform, resume_eq]
    dsimp only
    generalize (if s.suspendedLwpids.isEmpty = true then threads.eraseDups else s.suspendedLwpids) = targets
    split
    · exact h
    split
    · exact hmark h false _
    · exact hmark h false _
  | detach success released =>
    intro t ht
    simp only [perform, detach, Bool.and_eq_true] at ht ⊢
    exact ⟨h t ht.1, ht.2⟩

/-- **Runs.** For all thread lists and every pattern of failures, a sequence of calls keeps the
bookkeeping exact at every call exactly when every call is `CallOk` where it is made. -/
theorem suspendedLwpids_exact_iff (flags : Int → Bool) (calls : List Call) :
    Along (fun s c => (perform s c).1) Kept (.fresh flags) calls ↔
      Along (fun s c => (perform s c).1) CallOk (.fresh flags) calls :=
  Along.iff_of_invariant Inv (fun _ c h => kept_iff h c)
    (fun _ c h hok => ⟨((kept_iff h c).mpr hok).1, perform_held h.held c⟩) calls
    ⟨fun t => by simp [Session.fresh], fun _ h => nomatch h⟩

/-- A stop suspends threads 1 and 2; the resume frees 1 and fails at 2. The set still has both. -/
theorem suspendedLwpids_stale :
    ¬ ∀ (flags : Int → Bool) (calls : List Call),
      Along (fun s c => (perform s c).1) Kept (.fresh flags) calls := by
  intro h
  have := ((h (fun _ => false) [.stopProcess [1, 2] (fun _ => true) (fun _ => true),
    .resumeProcess [1, 2] (fun t => t == 1)]).2.1.1 1).mp (by decide)
  revert this
  decide

end DebuggerRpc

end Ps5Debugger
