import Mathlib.Data.FinEnum
import Ps5Debugger.Lib.Bytes
import Ps5Debugger.Lib.LinkedList
import Ps5Debugger.Lib.SlotCache

/-!
# Cached lookups of kernel structures

`kernel_get_proc_fast` (`kern_rw_fast.c`) and `kern_thread_addr` (`kern_dbreg.c`) walk the kernel's lists of
processes and threads, and keep the last structures they found. A structure out of a cache is used again if
its id is still there, wherever the structure itself may be by then.
-/

namespace Ps5Debugger

open Lib

namespace KernCache

abbrev Addr : Type := BitVec 64

/-- `pid`, `lwpid` -/
abbrev Id : Type := BitVec 32

/-! ## The kernel -/

/-- `kernel_copyout_fast(kaddr, &v, 4)` -/
def read32 (mem : Addr → Byte) (kaddr : Addr) : Id :=
  mem (kaddr + 3) ++ mem (kaddr + 2) ++ mem (kaddr + 1) ++ mem kaddr

/-- `kernel_copyout_fast(kaddr, &v, 8)` -/
def read64 (mem : Addr → Byte) (kaddr : Addr) : Addr := read32 mem (kaddr + 4) ++ read32 mem kaddr

/-- The pid of a `proc`. -/
def pidOf (mem : Addr → Byte) (proc : Addr) : Id := read32 mem (proc + 0xBC)

/-- The next one. -/
def nextProc (mem : Addr → Byte) (proc : Addr) : Addr := read64 mem proc

/-- Its first thread. -/
def firstThread (mem : Addr → Byte) (proc : Addr) : Addr := read64 mem (proc + 0x10)

/-- The lwpid of a thread. -/
def lwpidOf (mem : Addr → Byte) (thread : Addr) : Id := read32 mem (thread + 0x9C)

/-- The next one of the process. -/
def nextThread (mem : Addr → Byte) (thread : Addr) : Addr := read64 mem (thread + 0x10)

/-- The kernel between two calls: what is on its lists, and memory in which the lists are linked. Memory of structures
that are on no list is as it may be. -/
structure Kernel (allproc : Addr) where
  mem : Addr → Byte
  procs : List Addr
  threads : Addr → List Addr
  procs_linked : Lib.Linked (nextProc mem) 0 (read64 mem allproc) procs
  threads_linked : ∀ p ∈ procs, Lib.Linked (nextThread mem) 0 (firstThread mem p) (threads p)
  pids_distinct : procs.Pairwise fun p q => pidOf mem p ≠ pidOf mem q
  lwpids_distinct : ∀ p ∈ procs, (threads p).Pairwise fun t u => lwpidOf mem t ≠ lwpidOf mem u

variable {allproc : Addr}

/-- The process that has a pid now. -/
def Kernel.procNow (k : Kernel allproc) (pid : Id) : Addr := (k.procs.find? fun p => pidOf k.mem p = pid).getD 0

/-- The thread of a process that has an lwpid now. -/
def Kernel.threadNow (k : Kernel allproc) (pid lwpid : Id) : Addr :=
  if k.procNow pid = 0 then 0
  else ((k.threads (k.procNow pid)).find? fun t => lwpidOf k.mem t = lwpid).getD 0

/-! ## Lookups -/

/-- `kr_proc_cache` and `kr_thr_cache`, with the slots that are filled next -/
structure Caches where
  proc : SlotCache Id Addr 8
  thr : SlotCache (Id × Id) Addr 8

/-- A cache has a slot to fill. -/
local instance slotsNeZero : NeZero 8 := inferInstance

/-- The caches at the start. -/
def Caches.empty : Caches := ⟨⟨fun _ => 0, 0⟩, ⟨fun _ => 0, 0⟩⟩

/-- The passes of a `while` loop; there are no more structures than addresses. -/
def passes : Nat := 2 ^ 64

/-- `kr_walk_allproc` -/
def krWalkAllproc (allproc : Addr) (mem : Addr → Byte) (pid : Id) : Option Addr :=
  loop (follow (nextProc mem) 0 fun cur => pidOf mem cur = pid) passes (read64 mem allproc)

/-- `kernel_get_proc_fast`. A list without end has no result. -/
def kernelGetProcFast (allproc : Addr) (mem : Addr → Byte) (s : Caches) (pid : Id) : Option (Addr × Caches) :=
  match s.proc.check pid fun kproc => pidOf mem kproc = pid with
  | (some kproc, proc) => some (kproc, { s with proc })
  | (none, proc) => do
    let kp ← krWalkAllproc allproc mem pid
    if kp ≠ 0 then return (kp, { s with proc := proc.put pid kp })
    else return (kp, { s with proc })

/-- The loop over the threads in `kern_thread_addr`. -/
def walkThreads (mem : Addr → Byte) (kproc : Addr) (lwpid : Id) : Option Addr :=
  loop (follow (nextThread mem) 0 fun kthread => lwpidOf mem kthread = lwpid) passes (firstThread mem kproc)

/-- `kern_thread_addr` -/
def kernThreadAddr (allproc : Addr) (mem : Addr → Byte) (s : Caches) (pid lwpid : Id) : Option (Addr × Caches) :=
  match s.thr.check (pid, lwpid) fun kthread => lwpidOf mem kthread = lwpid with
  | (some kthread, thr) => some (kthread, { s with thr })
  | (none, thr) => do
    let (kproc, s) ← kernelGetProcFast allproc mem { s with thr } pid
    if kproc = 0 then return (0, s)
    else do
      let kthread ← walkThreads mem kproc lwpid
      if kthread ≠ 0 then return (kthread, { s with thr := s.thr.put (pid, lwpid) kthread })
      else return (0, s)

/-- What is asked of the caches. -/
inductive Call : Type where
  | getProc (pid : Id)
  | threadAddr (pid lwpid : Id)
  | invalidate (pid : Id)
  | flushProcs
  | flushThreads

/-- What a call returns, and the caches after it. -/
def Call.run (k : Kernel allproc) (s : Caches) : Call → Option (Addr × Caches)
  | .getProc pid => kernelGetProcFast allproc k.mem s pid
  | .threadAddr pid lwpid => kernThreadAddr allproc k.mem s pid lwpid
  | .invalidate pid => some (0, { s with proc := s.proc.drop pid })
  | .flushProcs => some (0, { s with proc := s.proc.flush })
  | .flushThreads => some (0, { s with thr := s.thr.flush })

/-- What it should return: a structure that is on a list now. -/
def Call.now (k : Kernel allproc) : Call → Addr
  | .getProc pid => k.procNow pid
  | .threadAddr pid lwpid => k.threadNow pid lwpid
  | .invalidate _ | .flushProcs | .flushThreads => 0

/-- Calls one after the other, each with the kernel as it is by then. -/
abbrev History (allproc : Addr) : Type := List (Kernel allproc × Call)

/-- Each call returns what is on the lists, which is what it would return with empty caches. -/
def Right (s : Caches) : History allproc → Prop
  | [] => True
  | (k, c) :: h => (c.run k Caches.empty).map Prod.fst = some (c.now k) ∧
      ∃ s', c.run k s = some (c.now k, s') ∧ Right s' h

/-! ## Walks -/

theorem card_addr : Fintype.card Addr = passes := by
  rw [← FinEnum.card_eq_fintypeCard, FinEnum.card_bitVec, passes]

theorem krWalkAllproc_eq (k : Kernel allproc) (pid : Id) : krWalkAllproc allproc k.mem pid = some (k.procNow pid) :=
  loop_follow k.procs_linked (by rw [← card_addr]; exact k.procs_linked.length_lt)

theorem walkThreads_eq (k : Kernel allproc) {kproc : Addr} (hproc : kproc ∈ k.procs) (lwpid : Id) :
    walkThreads k.mem kproc lwpid =
      some (((k.threads kproc).find? fun t => lwpidOf k.mem t = lwpid).getD 0) :=
  loop_follow (k.threads_linked kproc hproc) (by rw [← card_addr]; exact (k.threads_linked kproc hproc).length_lt)

section Found

variable {α : Type} [Zero α] {key : α → Id} {l : List α} {a : α} {id : Id}

/-- With distinct ids, a structure on a list is the one that has its id. -/
theorem find_eq_of_mem (hdistinct : l.Pairwise fun x y => key x ≠ key y) (ha : a ∈ l) (hid : key a = id) :
    (l.find? fun x => key x = id).getD 0 = a := by
  induction l with
  | nil => cases ha
  | cons x l ih =>
    obtain ⟨hx, hl⟩ := List.pairwise_cons.mp hdistinct
    rw [List.find?_cons]
    by_cases hxid : key x = id
    · rw [decide_eq_true hxid]
      rcases List.mem_cons.mp ha with rfl | ha
      · rfl
      · exact absurd (hxid.trans hid.symm) (hx a ha)
    · rw [decide_eq_false hxid]
      refine ih hl ((List.mem_cons.mp ha).resolve_left ?_)
      rintro rfl
      exact hxid hid

theorem mem_of_find_ne_zero (h : (l.find? fun x => key x = id).getD 0 ≠ 0) :
    (l.find? fun x => key x = id).getD 0 ∈ l ∧ key ((l.find? fun x => key x = id).getD 0) = id := by
  cases hfind : l.find? fun x => key x = id with
  | none =>
    rw [hfind] at h
    exact absurd rfl h
  | some a =>
    have hid := List.find?_some hfind
    exact ⟨List.mem_of_find?_eq_some hfind, of_decide_eq_true hid⟩

end Found

/-! ## Stale structures -/

/-- The process that a slot has for a pid. -/
def procHit (k : Kernel allproc) (s : Caches) (pid : Id) : Option Addr :=
  (s.proc.check pid fun kproc => pidOf k.mem kproc = pid).1

/-- The thread that a slot has for a pid and an lwpid. -/
def threadHit (k : Kernel allproc) (s : Caches) (pid lwpid : Id) : Option Addr :=
  (s.thr.check (pid, lwpid) fun kthread => lwpidOf k.mem kthread = lwpid).1

/-- The process that is used out of the cache is on the list. -/
def FreshProc (k : Kernel allproc) (s : Caches) (pid : Id) : Prop := ∀ kproc ∈ procHit k s pid, kproc ∈ k.procs

/-- The thread that is used out of the cache is on the list of the process; where none is, the process is fresh. -/
def FreshThread (k : Kernel allproc) (s : Caches) (pid lwpid : Id) : Prop :=
  (∀ kthread ∈ threadHit k s pid lwpid, k.procNow pid ≠ 0 ∧ kthread ∈ k.threads (k.procNow pid)) ∧
    (threadHit k s pid lwpid = none → FreshProc k s pid)

/-- What is used out of a cache is on a list. -/
def Call.Fresh (k : Kernel allproc) (s : Caches) : Call → Prop
  | .getProc pid => FreshProc k s pid
  | .threadAddr pid lwpid => FreshThread k s pid lwpid
  | .invalidate _ | .flushProcs | .flushThreads => True

/-- Every call of a history uses what is on the lists by then. -/
def Fresh (s : Caches) : History allproc → Prop
  | [] => True
  | (k, c) :: h => c.Fresh k s ∧ ∀ r s', c.run k s = some (r, s') → Fresh s' h

section Steps

variable {k : Kernel allproc} {s : Caches} {pid lwpid : Id} {a : Addr}

theorem procNow_mem (h : k.procNow pid ≠ 0) : k.procNow pid ∈ k.procs ∧ pidOf k.mem (k.procNow pid) = pid :=
  mem_of_find_ne_zero h

theorem procNow_eq (ha : a ∈ k.procs) (hid : pidOf k.mem a = pid) : k.procNow pid = a :=
  find_eq_of_mem k.pids_distinct ha hid

theorem threadNow_eq (hne : k.procNow pid ≠ 0) (ha : a ∈ k.threads (k.procNow pid)) (hid : lwpidOf k.mem a = lwpid) :
    k.threadNow pid lwpid = a := by
  rw [Kernel.threadNow, if_neg hne]
  exact find_eq_of_mem (k.lwpids_distinct _ (procNow_mem hne).1) ha hid

/-- A process lookup without a hit walks the list. -/
theorem kernelGetProcFast_of_none (h : procHit k s pid = none) :
    ∃ s', kernelGetProcFast allproc k.mem s pid = some (k.procNow pid, s') ∧ s'.thr = s.thr ∧
      ∀ q a, s'.proc.Holds q a → (q = pid ∧ a = k.procNow pid) ∨ s.proc.Holds q a := by
  rw [procHit] at h
  have hholds (q : Id) (a : Addr) : (s.proc.check pid fun kproc => pidOf k.mem kproc = pid).2.Holds q a →
      s.proc.Holds q a := SlotCache.holds_check
  rw [kernelGetProcFast]
  generalize s.proc.check pid (fun kproc => decide (pidOf k.mem kproc = pid)) = r at h hholds
  obtain ⟨hit, proc⟩ := r
  obtain rfl : hit = none := h
  simp only [krWalkAllproc_eq, Option.bind_eq_bind, Option.bind_some]
  split
  · refine ⟨_, rfl, rfl, fun q a hq => ?_⟩
    exact (SlotCache.holds_put hq).imp_right (hholds q a)
  · exact ⟨_, rfl, rfl, fun q a hq => .inr (hholds q a hq)⟩

/-- With a hit it returns that. -/
theorem kernelGetProcFast_of_some (h : procHit k s pid = some a) :
    ∃ s', kernelGetProcFast allproc k.mem s pid = some (a, s') ∧ s'.thr = s.thr ∧
      ∀ q a, s'.proc.Holds q a → s.proc.Holds q a := by
  rw [procHit] at h
  have hholds (q : Id) (a : Addr) : (s.proc.check pid fun kproc => pidOf k.mem kproc = pid).2.Holds q a →
      s.proc.Holds q a := SlotCache.holds_check
  rw [kernelGetProcFast]
  generalize s.proc.check pid (fun kproc => decide (pidOf k.mem kproc = pid)) = r at h hholds
  obtain ⟨hit, proc⟩ := r
  obtain rfl : hit = some a := h
  exact ⟨_, rfl, rfl, hholds⟩

/-- A fresh process lookup returns the process on the list, and may cache it. -/
theorem kernelGetProcFast_spec (h : FreshProc k s pid) :
    ∃ s', kernelGetProcFast allproc k.mem s pid = some (k.procNow pid, s') ∧ s'.thr = s.thr ∧
      ∀ q a, s'.proc.Holds q a → (q = pid ∧ a = k.procNow pid) ∨ s.proc.Holds q a := by
  cases hhit : procHit k s pid with
  | none => exact kernelGetProcFast_of_none hhit
  | some kproc =>
    obtain ⟨s', hrun, hthr, hholds⟩ := kernelGetProcFast_of_some hhit
    have hid := of_decide_eq_true (SlotCache.check_spec hhit).2
    rw [← procNow_eq (h kproc hhit) hid] at hrun
    exact ⟨s', hrun, hthr, fun q a hq => .inr (hholds q a hq)⟩

/-- A process lookup returns the process on the list only if it is fresh. -/
theorem freshProc_of_eq {s' : Caches} (h : kernelGetProcFast allproc k.mem s pid = some (k.procNow pid, s')) :
    FreshProc k s pid := by
  intro kproc hhit
  obtain ⟨s'', hrun, -, -⟩ := kernelGetProcFast_of_some hhit
  obtain ⟨⟨hne, -⟩, -⟩ := SlotCache.check_spec hhit
  have heq : k.procNow pid = kproc := congrArg Prod.fst (Option.some_inj.mp (h.symm.trans hrun))
  rw [← heq] at hne ⊢
  exact (procNow_mem hne).1

/-- A fresh thread lookup returns the thread on the list of the process. -/
theorem kernThreadAddr_spec (h : FreshThread k s pid lwpid) :
    ∃ s', kernThreadAddr allproc k.mem s pid lwpid = some (k.threadNow pid lwpid, s') ∧
      (∀ q a, s'.proc.Holds q a → (q = pid ∧ a = k.procNow pid) ∨ s.proc.Holds q a) ∧
      ∀ q a, s'.thr.Holds q a → (q = (pid, lwpid) ∧ a = k.threadNow pid lwpid) ∨ s.thr.Holds q a := by
  obtain ⟨hthread, hproc⟩ := h
  rw [threadHit] at hthread hproc
  have hholds (q : Id × Id) (a : Addr) :
      (s.thr.check (pid, lwpid) fun kthread => lwpidOf k.mem kthread = lwpid).2.Holds q a → s.thr.Holds q a :=
    SlotCache.holds_check
  have hvalid (a : Addr) (ha : (s.thr.check (pid, lwpid) fun kthread => lwpidOf k.mem kthread = lwpid).1 = some a) :
      lwpidOf k.mem a = lwpid := of_decide_eq_true (SlotCache.check_spec ha).2
  rw [kernThreadAddr]
  generalize s.thr.check (pid, lwpid) (fun kthread => decide (lwpidOf k.mem kthread = lwpid)) = r
    at hthread hproc hholds hvalid
  obtain ⟨hit, thr⟩ := r
  cases hit with
  | some kthread =>
    obtain ⟨hne, hmem⟩ := hthread kthread rfl
    rw [threadNow_eq hne hmem (hvalid kthread rfl)]
    exact ⟨_, rfl, fun q a hq => .inr hq, fun q a hq => .inr (hholds q a hq)⟩
  | none =>
    have hfresh : FreshProc k { s with thr } pid := hproc rfl
    obtain ⟨s', hrun, hthr, hprocs⟩ := kernelGetProcFast_spec hfresh
    have hthrs (q : Id × Id) (a : Addr) (hq : s'.thr.Holds q a) : s.thr.Holds q a := by
      rw [hthr] at hq
      exact hholds q a hq
    simp only [hrun, Option.bind_eq_bind, Option.bind_some]
    by_cases hzero : k.procNow pid = 0
    · rw [if_pos hzero, Kernel.threadNow, if_pos hzero]
      exact ⟨s', rfl, hprocs, fun q a hq => .inr (hthrs q a hq)⟩
    · have hnow : k.threadNow pid lwpid = _ := if_neg hzero
      rw [if_neg hzero, walkThreads_eq k (procNow_mem hzero).1, Option.bind_some, ← hnow]
      by_cases hthread : k.threadNow pid lwpid = 0
      · rw [if_neg (not_not.mpr hthread), hthread]
        exact ⟨s', rfl, hprocs, fun q a hq => .inr (hthrs q a hq)⟩
      · rw [if_pos hthread]
        exact ⟨_, rfl, hprocs, fun q a hq => (SlotCache.holds_put hq).imp_right (hthrs q a)⟩

end Steps

/-! ## Histories -/

/-- The structures that lookups found, and that were not dropped since. -/
structure Seen where
  procs : Id → Addr → Prop
  threads : Id × Id → Addr → Prop

def Seen.none : Seen := ⟨fun _ _ => False, fun _ _ => False⟩

/-- What is seen after a call. -/
def Call.seen (k : Kernel allproc) (w : Seen) : Call → Seen
  | .getProc pid => { w with procs := fun q a => (q = pid ∧ a = k.procNow pid) ∨ w.procs q a }
  | .threadAddr pid lwpid =>
    { procs := fun q a => (q = pid ∧ a = k.procNow pid) ∨ w.procs q a
      threads := fun q a => (q = (pid, lwpid) ∧ a = k.threadNow pid lwpid) ∨ w.threads q a }
  | .invalidate pid => { w with procs := fun q a => q ≠ pid ∧ w.procs q a }
  | .flushProcs => { w with procs := fun _ _ => False }
  | .flushThreads => { w with threads := fun _ _ => False }

/-- No process that was seen under a pid still has the pid and is on the list no more. -/
def RetiredProc (k : Kernel allproc) (w : Seen) (pid : Id) : Prop :=
  ∀ a, w.procs pid a → pidOf k.mem a = pid → a ∈ k.procs

/-- Nor is there such a thread of a process. -/
def RetiredThread (k : Kernel allproc) (w : Seen) (pid lwpid : Id) : Prop :=
  ∀ a, w.threads (pid, lwpid) a → lwpidOf k.mem a = lwpid →
    k.procNow pid ≠ 0 ∧ a ∈ k.threads (k.procNow pid)

def Call.Retired (k : Kernel allproc) (w : Seen) : Call → Prop
  | .getProc pid => RetiredProc k w pid
  | .threadAddr pid lwpid => RetiredThread k w pid lwpid ∧ RetiredProc k w pid
  | .invalidate _ | .flushProcs | .flushThreads => True

/-- Whatever has left a list since a lookup found it has lost its id, or was dropped, when the id is looked up. -/
def Retired (w : Seen) : History allproc → Prop
  | [] => True
  | (k, c) :: h => c.Retired k w ∧ Retired (c.seen k w) h

/-- What the slots have was seen. -/
structure Caches.Within (s : Caches) (w : Seen) : Prop where
  proc : ∀ q a, s.proc.Holds q a → w.procs q a
  thr : ∀ q a, s.thr.Holds q a → w.threads q a

variable {k : Kernel allproc} {s : Caches} {w : Seen} {c : Call}

theorem within_empty : Caches.empty.Within Seen.none :=
  ⟨fun _ _ h => SlotCache.not_holds_flush (c := Caches.empty.proc) h,
    fun _ _ h => SlotCache.not_holds_flush (c := Caches.empty.thr) h⟩

/-- With the structures that were seen retired, what is used out of a cache is fresh. -/
theorem Caches.Within.fresh (hw : s.Within w) (h : c.Retired k w) : c.Fresh k s := by
  have hproc {pid : Id} (h : RetiredProc k w pid) : FreshProc k s pid := by
    intro kproc hhit
    obtain ⟨hholds, hid⟩ := SlotCache.check_spec hhit
    exact h kproc (hw.proc _ _ hholds) (of_decide_eq_true hid)
  cases c with
  | getProc pid => exact hproc h
  | threadAddr pid lwpid =>
    refine ⟨fun kthread hhit => ?_, fun _ => hproc h.2⟩
    obtain ⟨hholds, hid⟩ := SlotCache.check_spec hhit
    exact h.1 kthread (hw.thr _ _ hholds) (of_decide_eq_true hid)
  | invalidate pid => exact trivial
  | flushProcs => exact trivial
  | flushThreads => exact trivial

/-- A call that uses fresh structures returns what is on the lists, and its caches hold what was seen. -/
theorem Call.Fresh.run (h : c.Fresh k s) :
    ∃ s', c.run k s = some (c.now k, s') ∧ ∀ w, s.Within w → s'.Within (c.seen k w) := by
  cases c with
  | getProc pid =>
    obtain ⟨s', hrun, hthr, hholds⟩ := kernelGetProcFast_spec h
    refine ⟨s', hrun, fun w hw => ⟨fun q a hq => (hholds q a hq).imp_right (hw.proc q a), fun q a hq => ?_⟩⟩
    rw [hthr] at hq
    exact hw.thr q a hq
  | threadAddr pid lwpid =>
    obtain ⟨s', hrun, hprocs, hthrs⟩ := kernThreadAddr_spec h
    exact ⟨s', hrun, fun w hw => ⟨fun q a hq => (hprocs q a hq).imp_right (hw.proc q a),
      fun q a hq => (hthrs q a hq).imp_right (hw.thr q a)⟩⟩
  | invalidate pid =>
    refine ⟨_, rfl, fun w hw => ⟨fun q a hq => ?_, hw.thr⟩⟩
    obtain ⟨hne, hq⟩ := SlotCache.holds_drop hq
    exact ⟨hne, hw.proc q a hq⟩
  | flushProcs => exact ⟨_, rfl, fun w hw => ⟨fun q a hq => SlotCache.not_holds_flush hq, hw.thr⟩⟩
  | flushThreads => exact ⟨_, rfl, fun w hw => ⟨hw.proc, fun q a hq => SlotCache.not_holds_flush hq⟩⟩

/-- Nothing is used out of empty caches. -/
theorem fresh_empty (k : Kernel allproc) (c : Call) : c.Fresh k Caches.empty := by
  refine within_empty.fresh ?_
  cases c with
  | getProc pid => exact nofun
  | threadAddr pid lwpid => exact ⟨nofun, nofun⟩
  | invalidate pid => exact trivial
  | flushProcs => exact trivial
  | flushThreads => exact trivial

theorem right_of_fresh (h : History allproc) (hfresh : Fresh s h) : Right s h := by
  induction h generalizing s with
  | nil => exact trivial
  | cons kc h ih =>
    obtain ⟨k, c⟩ := kc
    obtain ⟨hc, hrest⟩ := hfresh
    obtain ⟨s₀, hempty, -⟩ := (fresh_empty k c).run
    obtain ⟨s', hrun, -⟩ := hc.run
    refine ⟨?_, s', hrun, ih (hrest _ s' hrun)⟩
    rw [hempty, Option.map_some]

theorem fresh_of_retired (h : History allproc) (hw : s.Within w) (hretired : Retired w h) : Fresh s h := by
  induction h generalizing s w with
  | nil => exact trivial
  | cons kc h ih =>
    obtain ⟨k, c⟩ := kc
    obtain ⟨hc, hrest⟩ := hretired
    have hfresh := hw.fresh hc
    refine ⟨hfresh, fun r s' hrun => ?_⟩
    obtain ⟨s'', hrun', hwithin⟩ := hfresh.run
    obtain ⟨-, rfl⟩ := Prod.mk.inj (Option.some_inj.mp (hrun.symm.trans hrun'))
    exact ih (hwithin w hw) hrest

/-- Cached lookups are the uncached ones in every history in which the structures that are used out of the caches are
on the lists, and a process lookup is only then. That is so when structures that left a list lose their ids or are
dropped before the ids are looked up. -/
theorem lookups_right (allproc : Addr) :
    (∀ (s : Caches) (h : History allproc), Fresh s h → Right s h) ∧
      (∀ (k : Kernel allproc) (s : Caches) (pid : Id),
        (∃ s', kernelGetProcFast allproc k.mem s pid = some (k.procNow pid, s')) ↔ FreshProc k s pid) ∧
      ∀ h : History allproc, Retired Seen.none h → Fresh Caches.empty h := by
  refine ⟨fun s h hfresh => right_of_fresh h hfresh, fun k s pid => ⟨?_, fun hfresh => ?_⟩,
    fun h hretired => fresh_of_retired h within_empty hretired⟩
  · rintro ⟨s', hrun⟩
    exact freshProc_of_eq hrun
  · obtain ⟨s', hrun, -, -⟩ := kernelGetProcFast_spec hfresh
    exact ⟨s', hrun⟩

/-! ## A process that exits -/

/-- A process at `0x2000` with the pid 5. -/
def procAt : Addr → Byte := fun a => if a = 0x20BC then 5 else 0

/-- It is on the list, which starts at `0x1000`. -/
def running : Kernel 0x1000 where
  mem := fun a => if a = 0x1001 then 0x20 else procAt a
  procs := [0x2000]
  threads := fun _ => []
  procs_linked := ⟨by decide, by decide, by decide⟩
  threads_linked := List.forall_mem_singleton.mpr (by decide)
  pids_distinct := List.pairwise_singleton _ _
  lwpids_distinct := fun _ _ => .nil

/-- It is not, and its bytes are as they were. -/
def exited : Kernel 0x1000 where
  mem := procAt
  procs := []
  threads := fun _ => []
  procs_linked := by decide
  threads_linked := nofun
  pids_distinct := .nil
  lwpids_distinct := nofun

theorem lookups_right_running : Right Caches.empty [(running, .getProc 5), (running, .getProc 5)] := by
  refine (lookups_right 0x1000).1 _ _ ((lookups_right 0x1000).2.2 _ ⟨nofun, ?_, trivial⟩)
  rintro a (⟨-, rfl⟩ | hnone) _
  · decide
  · exact hnone.elim

/-- The second lookup returns the process that has exited, and with empty caches none. -/
theorem lookup_exited :
    ((Call.getProc 5).run running Caches.empty).bind
        (fun r => ((Call.getProc 5).run exited r.2).map Prod.fst) = some 0x2000 ∧
      ((Call.getProc 5).run exited Caches.empty).map Prod.fst = some 0 :=
  ⟨by decide +kernel, by decide +kernel⟩

end KernCache

end Ps5Debugger
