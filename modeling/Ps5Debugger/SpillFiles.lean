import Ps5Debugger.TurboSession
import Mathlib.Logic.Function.Basic

/-!
# The files of snapshot sessions

A snapshot that does not fit in RAM, or keeps its first or its previous values, has files. Their names
are made from the number of the connection and from a directory that every connection can set
(`proc_turboscan_config_handle`). When a session ends, the names are made again, from the directory as it
is then: five places do so, and each removes the session's files exactly if the directory is still the
one they were created in.

The names of two connections differ in every directory, so no session ever loses a file to another.

The state has all connections, the directory, and the spill files that are there; which file belongs to
which session is kept for the theorems. Which directory a name stands for is up to the file system
(`resolve`).
-/

namespace Ps5Debugger

open Lib

/-! ## Names -/

inductive SpillKind where
  | snap
  | first
  | prev
deriving DecidableEq, Repr

/-- The suffixes of `fs_snap_path`, `fs_first_path` and `fs_prev_path`, behind the slash. -/
def SpillKind.suffix : SpillKind → List Char
  | .snap => "ps5dbg_snap_".toList
  | .first => "ps5dbg_first_".toList
  | .prev => "ps5dbg_prev_".toList

/-- The directory of `fs_store_path`: what was configured, up to its first NUL and at most 63 characters,
or `/data`. -/
def spillDirName (spillDir : List Char) : List Char :=
  let dir := spillDir.takeWhile fun ch => ch != Char.ofNat 0
  if dir = [] then "/data".toList else dir.take 63

/-- What `fs_store_path` puts behind the directory and a slash. -/
def spillBaseName (idx : Nat) (kind : SpillKind) : List Char :=
  kind.suffix ++ [Char.ofNat (48 + idx / 10), Char.ofNat (48 + idx % 10)] ++ ".bin".toList

/-- A connection and a kind have a name of their own. -/
theorem spillBaseName_inj {i j : Fin 12} {k l : SpillKind} (h : spillBaseName i k = spillBaseName j l) :
    i = j ∧ k = l := by
  -- the kinds differ in the letter behind "ps5dbg_"
  have hletter : k.suffix[7]? = l.suffix[7]? := by
    have h7 := congrArg (fun name : List Char => name[7]?) h
    cases k <;> cases l <;> exact h7
  have hkind : k = l := by
    cases k <;> cases l <;> first | rfl | exact absurd hletter (by decide)
  subst hkind
  refine ⟨?_, rfl⟩
  have hdigits := List.append_cancel_left (List.append_cancel_right h)
  clear h hletter
  revert i j
  decide

/-! ## The state -/

/-- A spill file: its directory and its name there. -/
structure SpillFile (D : Type) where
  dir : D
  name : List Char
deriving DecidableEq

/-- The connections and their files. -/
structure Spill (D : Type) where
  /-- `g_turboscan_spill_dir` -/
  spillDir : List Char
  /-- the session of each connection -/
  sess : Fin 12 → Option Session
  /-- the files that sessions created and nothing removed -/
  files : List (SpillFile D)
  /-- the files that the session of each connection created -/
  uses : Fin 12 → List (SpillFile D)

/-- `unlink` -/
def unlink {D : Type} [DecidableEq D] (files : List (SpillFile D)) (gone : List (SpillFile D)) :
    List (SpillFile D) :=
  files.filter fun f => decide (f ∉ gone)

/-- A session is a snapshot. -/
def isSnapshot : Option Session → Bool
  | some (.snapshot _) => true
  | _ => false

/-- The kinds that `turboscan_session_free_idx` removes. -/
def freedKinds (sess : Option Session) : List SpillKind := if isSnapshot sess then [.snap, .first, .prev] else []

/-- The kinds that `fs_snapshot_materialize` removes. -/
def SnapSession.kinds (s : SnapSession) : List SpillKind :=
  [.snap] ++ (if s.hasFirst then [.first] else []) ++ (if s.hasPrev then [.prev] else [])

/-- The files of a snapshot that is stored so. -/
def SnapPlan.files (plan : SnapPlan) : List SpillKind :=
  (if plan.useFile then [.snap] else []) ++ (if plan.keepFirst then [.first] else []) ++
    (if plan.keepPrev then [.prev] else [])

/-- The files that `fs_snapshot_create` opens. -/
def TurboStart.opens (c : TurboStart) (p : Pass) (segs : List SnapSegment) : List SpillKind :=
  let slotCount := slotTotal p.valueLength p.step 0 segs
  if slotCount = 0 ∨ c.env.snap.segAlloc = false then []
  else
    match snapPlan (c.snapReq p segs) (c.snapEnv p) slotCount with
    | none => []
    | some plan => plan.files

/-- A connection changes: its session, the files, and which of them are the session's. -/
def Spill.set {D : Type} (w : Spill D) (i : Fin 12) (sess : Option Session) (files uses : List (SpillFile D)) :
    Spill D where
  spillDir := w.spillDir
  sess := Function.update w.sess i sess
  files := files
  uses := Function.update w.uses i uses

section

variable {D : Type} [DecidableEq D] (resolve : List Char → D)

/-- `fs_store_path`: the file of a connection, as the directory is now. -/
def fsStorePath (w : Spill D) (i : Fin 12) (kind : SpillKind) : SpillFile D :=
  ⟨resolve (spillDirName w.spillDir), spillBaseName i kind⟩

/-- `turboscan_session_free_idx` -/
def sessionFree (w : Spill D) (i : Fin 12) : Spill D :=
  w.set i none (unlink w.files ((freedKinds (w.sess i)).map (fsStorePath resolve w i))) []

/-- `fs_snapshot_create`: free the session, open the files, and remove them again if the snapshot fails. -/
def snapshotCreate (w : Spill D) (i : Fin 12) (c : TurboStart) (p : Pass) (segs : List SnapSegment) : Spill D :=
  let w := sessionFree resolve w i
  let opened := (c.opens p segs).map (fsStorePath resolve w i)
  match c.create p segs with
  | none => w.set i none (unlink (opened ++ w.files) opened) []
  | some s => w.set i (some (.snapshot s)) (opened ++ w.files) opened

/-- `proc_turboscan_start_handle` -/
def spillStart (w : Spill D) (i : Fin 12) (c : TurboStart) : Spill D :=
  match c.branch with
  | .create p segs => snapshotCreate resolve w i c p segs
  | .resident p stored recs =>
    let w := sessionFree resolve w i
    w.set i ((startSession p.valueLength (fun _ => 0) stored recs).map .list) w.files []
  | _ => w

/-- A resident COUNT; `fs_snapshot_materialize` removes the files that the session has. -/
def spillCount (w : Spill D) (i : Fin 12) (c : CountCmd) : Spill D :=
  match w.sess i with
  | none => w
  | some sess =>
    let sess' := (residentCount c.env c.pass sess).1
    match sess, sess' with
    | .snapshot s, .list _ => w.set i (some sess') (unlink w.files (s.kinds.map (fsStorePath resolve w i))) []
    | _, _ => w.set i (some sess') w.files (w.uses i)

inductive SpillCmd where
  /-- a command of a connection -/
  | turbo (i : Fin 12) (c : TurboCmd)
  /-- `CMD_PROC_TURBOSCAN_CONFIG`, from any connection -/
  | config (spillPath : List Char)
  /-- `free_client` -/
  | disconnect (i : Fin 12)

def spillStep (w : Spill D) : SpillCmd → Spill D
  | .turbo i (.start c) => spillStart resolve w i c
  | .turbo i (.count c) => spillCount resolve w i c
  | .turbo i .finish => sessionFree resolve w i
  | .turbo _ (.get _ _) => w
  | .turbo _ .other => w
  | .config spillPath => if spillPath.length > 63 then w else { w with spillDir := spillPath }
  | .disconnect i => sessionFree resolve w i

/-! ## What the files keep -/

variable {resolve} {w : Spill D} {i j : Fin 12} {f : SpillFile D} {files gone uses : List (SpillFile D)}
  {sess : Option Session}

theorem mem_unlink : f ∈ unlink files gone ↔ f ∈ files ∧ f ∉ gone := by
  rw [unlink, List.mem_filter, decide_eq_true_eq]

/-- The files of a session are there and have names of its connection; a session that is no snapshot has
none, and a snapshot knows whether it has a first or a previous file. -/
structure SessionFiles (files : List (SpillFile D)) (i : Fin 12) (sess : Option Session)
    (uses : List (SpillFile D)) : Prop where
  named : ∀ f ∈ uses, ∃ k, f.name = spillBaseName i k
  there : ∀ f ∈ uses, f ∈ files
  idle : isSnapshot sess = false → uses = []
  first : ∀ s, sess = some (.snapshot s) → ∀ f ∈ uses, f.name = spillBaseName i .first → s.hasFirst = true
  prev : ∀ s, sess = some (.snapshot s) → ∀ f ∈ uses, f.name = spillBaseName i .prev → s.hasPrev = true

def Spill.Owned (w : Spill D) : Prop := ∀ i, SessionFiles w.files i (w.sess i) (w.uses i)

/-- Every spill file belongs to a session. -/
def Spill.Clean (w : Spill D) : Prop := ∀ f ∈ w.files, ∃ i, f ∈ w.uses i

omit [DecidableEq D] in
theorem SessionFiles.none (files : List (SpillFile D)) (i : Fin 12) (sess : Option Session) :
    SessionFiles files i sess [] :=
  ⟨by simp, by simp, fun _ => rfl, by simp, by simp⟩

omit [DecidableEq D] in
/-- Another connection keeps its files if they are still there. -/
theorem Spill.Owned.set (h : w.Owned) (hkeep : ∀ j ≠ i, ∀ f ∈ w.uses j, f ∈ files)
    (hnew : SessionFiles files i sess uses) : (w.set i sess files uses).Owned := by
  intro j
  rw [Spill.set]
  by_cases hj : j = i
  · dsimp only
    rw [hj, Function.update_self, Function.update_self]
    exact hnew
  · dsimp only
    rw [Function.update_of_ne hj, Function.update_of_ne hj]
    exact ⟨(h j).named, hkeep j hj, (h j).idle, (h j).first, (h j).prev⟩

omit [DecidableEq D] in
theorem Spill.Clean.set (h : w.Clean) (hfiles : ∀ f ∈ files, f ∈ uses ∨ f ∈ w.files ∧ f ∉ w.uses i) :
    (w.set i sess files uses).Clean := by
  intro f hf
  rw [Spill.set]
  rcases hfiles f hf with hf | ⟨hf, hnot⟩
  · refine ⟨i, ?_⟩
    dsimp only
    rw [Function.update_self]
    exact hf
  · obtain ⟨j, hj⟩ := h f hf
    refine ⟨j, ?_⟩
    dsimp only
    rw [Function.update_of_ne]
    · exact hj
    · rintro rfl
      exact hnot hj

omit [DecidableEq D] in
/-- A file of another connection has another name, in every directory. -/
theorem Spill.Owned.not_path (h : w.Owned) (hf : f ∈ w.uses j) (hj : j ≠ i) (w' : Spill D) (kinds : List SpillKind) :
    f ∉ kinds.map (fsStorePath resolve w' i) := by
  intro hgone
  obtain ⟨k, -, rfl⟩ := List.mem_map.mp hgone
  obtain ⟨l, hl⟩ := (h j).named _ hf
  exact hj (spillBaseName_inj hl).1.symm

omit [DecidableEq D] in
/-- The names made now are those of the session's files, if the directory is the same. -/
theorem mem_path (hdir : f.dir = resolve (spillDirName w.spillDir)) {k : SpillKind}
    (hname : f.name = spillBaseName i k) {kinds : List SpillKind} (hk : k ∈ kinds) :
    f ∈ kinds.map (fsStorePath resolve w i) := by
  refine List.mem_map.mpr ⟨k, hk, ?_⟩
  obtain ⟨dir, name⟩ := f
  dsimp only at hdir hname
  rw [hdir, hname]
  rfl

/-! ## Ending a session -/

/-- Removing files of a connection that ends its session. -/
theorem Spill.Owned.ends (h : w.Owned) (resolve : List Char → D) (i : Fin 12) (sess : Option Session)
    (kinds : List SpillKind) :
    (w.set i sess (unlink w.files (kinds.map (fsStorePath resolve w i))) []).Owned :=
  h.set (fun j hj f hf => mem_unlink.mpr ⟨(h j).there f hf, h.not_path hf hj w kinds⟩) (.none _ i sess)

theorem Spill.Clean.ends (h : w.Clean) (hdir : ∀ f ∈ w.uses i, f.dir = resolve (spillDirName w.spillDir))
    {kinds : List SpillKind} (hkinds : ∀ f ∈ w.uses i, ∃ k ∈ kinds, f.name = spillBaseName i k)
    (sess : Option Session) :
    (w.set i sess (unlink w.files (kinds.map (fsStorePath resolve w i))) []).Clean := by
  refine h.set fun f hf => ?_
  obtain ⟨hf, hnot⟩ := mem_unlink.mp hf
  refine .inr ⟨hf, fun huse => ?_⟩
  obtain ⟨k, hk, hname⟩ := hkinds f huse
  exact hnot (mem_path (hdir f huse) hname hk)

omit [DecidableEq D] in
theorem Spill.Owned.freed (h : w.Owned) :
    ∀ f ∈ w.uses i, ∃ k ∈ freedKinds (w.sess i), f.name = spillBaseName i k := by
  intro f hf
  obtain ⟨k, hk⟩ := (h i).named f hf
  refine ⟨k, ?_, hk⟩
  rw [freedKinds]
  cases hsnap : isSnapshot (w.sess i) with
  | true => cases k <;> simp
  | false =>
    rw [(h i).idle hsnap] at hf
    cases hf

/-! ## Snapshots -/

theorem SnapPlan.keepFirst_of_mem {plan : SnapPlan} (h : .first ∈ plan.files) : plan.keepFirst = true := by
  cases hkeep : plan.keepFirst with
  | true => rfl
  | false => simp [SnapPlan.files, hkeep] at h

theorem SnapPlan.keepPrev_of_mem {plan : SnapPlan} (h : .prev ∈ plan.files) : plan.keepPrev = true := by
  cases hkeep : plan.keepPrev with
  | true => rfl
  | false => simp [SnapPlan.files, hkeep] at h

/-- The session that `fs_snapshot_create` makes knows the files that it opened. -/
theorem create_flags {c : TurboStart} {p : Pass} {segs : List SnapSegment} {s : SnapSession}
    (h : c.create p segs = some s) :
    (SpillKind.first ∈ c.opens p segs → s.hasFirst = true) ∧
      (SpillKind.prev ∈ c.opens p segs → s.hasPrev = true) := by
  rw [TurboStart.create] at h
  split at h
  · cases h
  obtain ⟨plan, st, hplan, -, rfl⟩ := snapCreate_cases h
  have hopens : ∀ k ∈ c.opens p segs, k ∈ plan.files := by
    intro k hk
    rw [TurboStart.opens] at hk
    split at hk
    · cases hk
    · rw [show snapPlan (c.snapReq p segs) (c.snapEnv p) (slotTotal p.valueLength p.step 0 segs) = some plan
        from hplan] at hk
      exact hk
  exact ⟨fun hfirst => SnapPlan.keepFirst_of_mem (hopens _ hfirst),
    fun hprev => SnapPlan.keepPrev_of_mem (hopens _ hprev)⟩

theorem Spill.Owned.sessionFree (h : w.Owned) (resolve : List Char → D) (i : Fin 12) :
    (sessionFree resolve w i).Owned := h.ends resolve i none _

theorem Spill.Clean.sessionFree (h : w.Clean) (how : w.Owned)
    (hdir : ∀ f ∈ w.uses i, f.dir = resolve (spillDirName w.spillDir)) : (sessionFree resolve w i).Clean :=
  h.ends hdir how.freed none

theorem sessionFree_uses (resolve : List Char → D) (w : Spill D) (i : Fin 12) :
    (sessionFree resolve w i).uses i = [] := by
  rw [Ps5Debugger.sessionFree, Spill.set]
  exact Function.update_self i [] w.uses

theorem Spill.Owned.snapshotCreate (h : w.Owned) (resolve : List Char → D) (i : Fin 12) (c : TurboStart)
    (p : Pass) (segs : List SnapSegment) : (snapshotCreate resolve w i c p segs).Owned := by
  have hfree := h.sessionFree resolve i
  rw [Ps5Debugger.snapshotCreate]
  generalize Ps5Debugger.sessionFree resolve w i = w₁ at hfree
  cases hcreate : c.create p segs with
  | none =>
    refine hfree.set (fun j hj f hf => mem_unlink.mpr ⟨?_, hfree.not_path hf hj w₁ _⟩) (.none _ i _)
    exact List.mem_append_right _ ((hfree j).there f hf)
  | some s =>
    obtain ⟨hfirst, hprev⟩ := create_flags hcreate
    have hkind : ∀ f ∈ (c.opens p segs).map (fsStorePath resolve w₁ i), ∀ k, f.name = spillBaseName i k →
        k ∈ c.opens p segs := by
      intro f hf k hname
      obtain ⟨l, hl, rfl⟩ := List.mem_map.mp hf
      rw [← (spillBaseName_inj hname).2]
      exact hl
    refine hfree.set (fun j hj f hf => List.mem_append_right _ ((hfree j).there f hf)) ⟨?_, ?_, ?_, ?_, ?_⟩
    · intro f hf
      obtain ⟨k, -, rfl⟩ := List.mem_map.mp hf
      exact ⟨k, rfl⟩
    · exact fun f hf => List.mem_append_left _ hf
    · intro hno
      cases hno
    · rintro s' hs' f hf hname
      cases hs'
      exact hfirst (hkind f hf _ hname)
    · rintro s' hs' f hf hname
      cases hs'
      exact hprev (hkind f hf _ hname)

theorem Spill.Clean.snapshotCreate (h : w.Clean) (how : w.Owned)
    (hdir : ∀ f ∈ w.uses i, f.dir = resolve (spillDirName w.spillDir)) (c : TurboStart) (p : Pass)
    (segs : List SnapSegment) : (snapshotCreate resolve w i c p segs).Clean := by
  have hfree := h.sessionFree how hdir
  have hnone := sessionFree_uses resolve w i
  rw [Ps5Debugger.snapshotCreate]
  generalize Ps5Debugger.sessionFree resolve w i = w₁ at hfree hnone
  cases c.create p segs with
  | none =>
    refine hfree.set fun f hf => ?_
    obtain ⟨hf, hnot⟩ := mem_unlink.mp hf
    refine .inr ⟨(List.mem_append.mp hf).resolve_left hnot, ?_⟩
    rw [hnone]
    exact List.not_mem_nil
  | some s =>
    refine hfree.set fun f hf => ?_
    rcases List.mem_append.mp hf with hf | hf
    · exact .inl hf
    · refine .inr ⟨hf, ?_⟩
      rw [hnone]
      exact List.not_mem_nil

/-! ## START and COUNT -/

theorem snapLoop_flags {mem : Memory} (actx : Option (AliasEngine mem)) (cmp : List Byte → List Byte → Bool) :
    ∀ (fuel i : Nat) (sc : SnapScan), (snapLoop actx cmp fuel i sc).sess.hasFirst = sc.sess.hasFirst ∧
      (snapLoop actx cmp fuel i sc).sess.hasPrev = sc.sess.hasPrev
  | 0, _, _ => ⟨rfl, rfl⟩
  | fuel + 1, i, sc => by
    rw [snapLoop]
    split
    · exact snapLoop_flags actx cmp fuel _ (snapWindow actx cmp sc i)
    · exact ⟨rfl, rfl⟩

/-- A rescan does not change which files a session has. -/
theorem snapCount_flags {mem : Memory} (env : CountEnv mem) (p : CountPass) (s : SnapSession) :
    (snapCount env p s).hasFirst = s.hasFirst ∧ (snapCount env p s).hasPrev = s.hasPrev := by
  rw [snapCount]
  cases env.blBuf with
  | none => exact ⟨rfl, rfl⟩
  | some blBuf =>
    dsimp only
    split
    · rw [snapRescan]
      split
      · exact ⟨rfl, rfl⟩
      · exact snapLoop_flags env.actx p.residentCompare (s.slotCount + 1) _ ⟨s, env.memBuf, blBuf, 0, []⟩
    · exact ⟨rfl, rfl⟩

/-- A COUNT leaves a snapshot with the same files, or a list. -/
theorem residentCount_cases {mem : Memory} (env : CountEnv mem) (p : CountPass) (s : SnapSession) :
    (∃ s', (residentCount env p (.snapshot s)).1 = .snapshot s' ∧ s'.hasFirst = s.hasFirst ∧
      s'.hasPrev = s.hasPrev) ∨ ∃ l, (residentCount env p (.snapshot s)).1 = .list l := by
  rw [residentCount_snapshot]
  split
  · rw [SnapSession.materialize]
    cases snapMaterialize (snapCount env p s) env.mmapOk env.readOk with
    | none => exact .inl ⟨_, rfl, snapCount_flags env p s⟩
    | some l => exact .inr ⟨l, rfl⟩
  · exact .inl ⟨_, rfl, snapCount_flags env p s⟩

/-- The session whose connection a command takes away. A START does so with a snapshot or a resident scan,
a COUNT by materialising. -/
def endsSession (w : Spill D) : SpillCmd → Option (Fin 12)
  | .turbo i (.start c) =>
    match c.branch with
    | .create _ _ => some i
    | .resident _ _ _ => some i
    | _ => none
  | .turbo i (.count c) =>
    if isSnapshot (w.sess i) && !isSnapshot (turboStep (w.sess i) (.count c)).1 then some i else none
  | .turbo i .finish => some i
  | .disconnect i => some i
  | _ => none

/-- A session with files ends only while the directory is the one that it created them in. -/
def DirKept (resolve : List Char → D) (w : Spill D) (cmd : SpillCmd) : Prop :=
  ∀ i, endsSession w cmd = some i → ∀ f ∈ w.uses i, f.dir = resolve (spillDirName w.spillDir)

theorem Spill.Owned.start (h : w.Owned) (resolve : List Char → D) (i : Fin 12) (c : TurboStart) :
    (spillStart resolve w i c).Owned := by
  rw [spillStart]
  split
  · exact h.snapshotCreate resolve i c _ _
  · have hfree := h.sessionFree resolve i
    exact hfree.set (fun j _ f hf => (hfree j).there f hf) (.none _ i _)
  · exact h

theorem Spill.Clean.start (h : w.Clean) (how : w.Owned) (c : TurboStart)
    (hdir : DirKept resolve w (.turbo i (.start c))) : (spillStart resolve w i c).Clean := by
  rw [spillStart]
  cases hb : c.branch with
  | create p segs => exact h.snapshotCreate how (hdir i (by rw [endsSession, hb])) c p segs
  | resident p stored recs =>
    refine (h.sessionFree how (hdir i (by rw [endsSession, hb]))).set fun f hf => .inr ⟨hf, ?_⟩
    rw [sessionFree_uses]
    exact List.not_mem_nil
  | rejected => exact h
  | stream => exact h
  | refused => exact h

/-- What a COUNT does to a session and its files. -/
theorem spillCount_cases (resolve : List Char → D) (w : Spill D) (i : Fin 12) (c : CountCmd) :
    (w.sess i = none ∧ spillCount resolve w i c = w) ∨
    (∃ l l', w.sess i = some (.list l) ∧
      spillCount resolve w i c = w.set i (some (.list l')) w.files (w.uses i)) ∨
    (∃ s s', w.sess i = some (.snapshot s) ∧ s'.hasFirst = s.hasFirst ∧ s'.hasPrev = s.hasPrev ∧
      spillCount resolve w i c = w.set i (some (.snapshot s')) w.files (w.uses i)) ∨
    ∃ s l, w.sess i = some (.snapshot s) ∧ (turboStep (w.sess i) (.count c)).1 = some (.list l) ∧
      spillCount resolve w i c =
        w.set i (some (.list l)) (unlink w.files (s.kinds.map (fsStorePath resolve w i))) [] := by
  rw [spillCount]
  cases hs : w.sess i with
  | none => exact .inl ⟨rfl, rfl⟩
  | some sess =>
    cases sess with
    | list l => exact .inr (.inl ⟨l, _, rfl, rfl⟩)
    | snapshot s =>
      obtain ⟨s', hcount, hfirst, hprev⟩ | ⟨l, hcount⟩ := residentCount_cases c.env c.pass s
      · refine .inr (.inr (.inl ⟨s, s', rfl, hfirst, hprev, ?_⟩))
        dsimp only
        rw [hcount]
      · refine .inr (.inr (.inr ⟨s, l, rfl, ?_, ?_⟩))
        · rw [turboStep, hcount]
        · dsimp only
          rw [hcount]

theorem Spill.Owned.count (h : w.Owned) (resolve : List Char → D) (i : Fin 12) (c : CountCmd) :
    (spillCount resolve w i c).Owned := by
  have hthere : ∀ j ≠ i, ∀ f ∈ w.uses j, f ∈ w.files := fun j _ f hf => (h j).there f hf
  obtain ⟨-, heq⟩ | ⟨l, l', hs, heq⟩ | ⟨s, s', hs, hfirst, hprev, heq⟩ | ⟨s, l, -, -, heq⟩ :=
    spillCount_cases resolve w i c
  · rw [heq]
    exact h
  · rw [heq, (h i).idle (by rw [hs]; rfl)]
    exact h.set hthere (.none _ i _)
  · rw [heq]
    refine h.set hthere ⟨(h i).named, (h i).there, fun hno => ?_, fun t ht => ?_, fun t ht => ?_⟩
    · cases hno
    · cases ht
      rw [hfirst]
      exact (h i).first s hs
    · cases ht
      rw [hprev]
      exact (h i).prev s hs
  · rw [heq]
    exact h.ends resolve i _ _

omit [DecidableEq D] in
/-- A snapshot has no files but those that materialising removes. -/
theorem Spill.Owned.kinds (h : w.Owned) {s : SnapSession} (hs : w.sess i = some (.snapshot s)) :
    ∀ f ∈ w.uses i, ∃ k ∈ s.kinds, f.name = spillBaseName i k := by
  intro f hf
  obtain ⟨k, hk⟩ := (h i).named f hf
  refine ⟨k, ?_, hk⟩
  cases k with
  | snap => simp [SnapSession.kinds]
  | first => simp [SnapSession.kinds, (h i).first s hs f hf hk]
  | prev => simp [SnapSession.kinds, (h i).prev s hs f hf hk]

theorem Spill.Clean.count (h : w.Clean) (how : w.Owned) (c : CountCmd)
    (hdir : DirKept resolve w (.turbo i (.count c))) : (spillCount resolve w i c).Clean := by
  have hsame : ∀ sess, (w.set i sess w.files (w.uses i)).Clean := by
    intro sess f hf
    obtain ⟨j, hj⟩ := h f hf
    refine ⟨j, ?_⟩
    rw [Spill.set]
    dsimp only
    rw [Function.update_eq_self]
    exact hj
  obtain ⟨-, heq⟩ | ⟨l, l', -, heq⟩ | ⟨s, s', -, -, -, heq⟩ | ⟨s, l, hs, hlist, heq⟩ :=
    spillCount_cases resolve w i c
  · rw [heq]
    exact h
  · rw [heq]
    exact hsame _
  · rw [heq]
    exact hsame _
  · rw [heq]
    refine h.ends (hdir i ?_) (how.kinds hs) _
    rw [endsSession, hlist, hs]
    rfl

/-! ## Runs -/

/-- The session of a connection is what `turboStep` makes of it. -/
theorem spillStep_sess (resolve : List Char → D) (w : Spill D) (i : Fin 12) (c : TurboCmd) :
    (spillStep resolve w (.turbo i c)).sess i = (turboStep (w.sess i) c).1 := by
  cases c with
  | start c =>
    rw [spillStep, spillStart, turboStep, turboscanStart]
    cases c.branch with
    | create p segs =>
      dsimp only
      rw [snapshotCreate]
      cases c.create p segs with
      | none => exact Function.update_self i _ _
      | some s => exact Function.update_self i _ _
    | resident p stored recs => exact Function.update_self i _ _
    | rejected => rfl
    | stream => rfl
    | refused => rfl
  | count c =>
    rw [spillStep, spillCount]
    cases hs : w.sess i with
    | none => exact hs
    | some sess =>
      dsimp only
      split <;> exact Function.update_self i _ _
  | get start count =>
    rw [spillStep]
    cases w.sess i <;> rfl
  | finish => exact Function.update_self i _ _
  | other => rfl

theorem Spill.Owned.step (h : w.Owned) (resolve : List Char → D) (cmd : SpillCmd) :
    (spillStep resolve w cmd).Owned := by
  cases cmd with
  | turbo i c =>
    cases c with
    | start c => exact h.start resolve i c
    | count c => exact h.count resolve i c
    | get start count => exact h
    | finish => exact h.sessionFree resolve i
    | other => exact h
  | config spillPath =>
    rw [spillStep]
    split <;> exact h
  | disconnect i => exact h.sessionFree resolve i

theorem Spill.Clean.step (h : w.Clean) (how : w.Owned) {cmd : SpillCmd} (hdir : DirKept resolve w cmd) :
    (spillStep resolve w cmd).Clean := by
  cases cmd with
  | turbo i c =>
    cases c with
    | start c => exact h.start how c hdir
    | count c => exact h.count how c hdir
    | get start count => exact h
    | finish => exact h.sessionFree how (hdir i rfl)
    | other => exact h
  | config spillPath =>
    rw [spillStep]
    split <;> exact h
  | disconnect i => exact h.sessionFree how (hdir i rfl)

/-- The server starts: no connection has a session, and no spill file is there. -/
def Spill.start (D : Type) : Spill D := ⟨[], fun _ => none, [], fun _ => []⟩

omit [DecidableEq D] in
theorem Spill.Owned.initial : (Spill.start D).Owned := fun i => .none _ i _

/-- A session never loses a file, whatever the connections do. -/
theorem spill_files_stay (resolve : List Char → D) (cmds : List SpillCmd) (i : Fin 12) :
    ∀ f ∈ (cmds.foldl (spillStep resolve) (Spill.start D)).uses i,
      f ∈ (cmds.foldl (spillStep resolve) (Spill.start D)).files := by
  have howned : (cmds.foldl (spillStep resolve) (Spill.start D)).Owned :=
    List.foldlRecOn cmds (spillStep resolve) Spill.Owned.initial fun w h cmd _ => h.step resolve cmd
  exact (howned i).there

/-- **Spill files do not outlive their session**, as long as sessions end in the directory they were started
in: a connection without a snapshot has no file in any directory. -/
theorem spill_files_end {resolve : List Char → D} {cmds : List SpillCmd}
    (hdir : Along (spillStep resolve) (DirKept resolve) (Spill.start D) cmds) (i : Fin 12) :
    (isSnapshot ((cmds.foldl (spillStep resolve) (Spill.start D)).sess i) = false →
      ∀ f ∈ (cmds.foldl (spillStep resolve) (Spill.start D)).files, ∀ k, f.name ≠ spillBaseName i k) ∧
    ∀ f ∈ (cmds.foldl (spillStep resolve) (Spill.start D)).uses i,
      f ∈ (cmds.foldl (spillStep resolve) (Spill.start D)).files := by
  obtain ⟨howned, hclean⟩ := Along.keeps (fun w : Spill D => w.Owned ∧ w.Clean)
    (fun w cmd h hok => ⟨h.1.step resolve cmd, h.2.step h.1 hok⟩) cmds
    ⟨Spill.Owned.initial, fun f hf => by cases hf⟩ hdir
  refine ⟨fun hno f hf k hname => ?_, spill_files_stay resolve cmds i⟩
  obtain ⟨j, hj⟩ := hclean f hf
  obtain ⟨l, hl⟩ := (howned j).named f hj
  obtain ⟨rfl, -⟩ := spillBaseName_inj (hl.symm.trans hname)
  rw [(howned j).idle hno] at hj
  cases hj

end

/-- A snapshot that keeps its first values in a file. -/
def keepFirstStart : TurboStart :=
  { fourByteStart 4 4 with sp := ⟨⟨0, 0x1000, 4, 4, 0, 0, 4⟩, TS_SNAPSHOT ||| TS_SNAPSHOT_KEEP_FIRST⟩ }

/-- A snapshot with a file, and its end. -/
theorem spill_files_end_unlinked :
    isSnapshot (([.turbo 0 (.start keepFirstStart), .disconnect 0] : List SpillCmd).foldl (spillStep id)
        (Spill.start (List Char)) |>.sess 0) = false ∧
      ∀ f ∈ (([.turbo 0 (.start keepFirstStart), .disconnect 0] : List SpillCmd).foldl (spillStep id)
        (Spill.start (List Char))).files, ∀ k, f.name ≠ spillBaseName 0 k := by
  have hdir : Along (spillStep id) (DirKept id) (Spill.start (List Char))
      [.turbo 0 (.start keepFirstStart), .disconnect 0] := by
    refine ⟨fun i _ f hf => ?_, fun i hi => ?_, trivial⟩
    · cases hf
    · obtain rfl := Option.some.inj hi
      decide
  exact ⟨by decide, (spill_files_end hdir 0).1 (by decide)⟩

/-- The directory is set while a snapshot has a file: its end does not remove the file. -/
theorem config_leaks_spill_file :
    ¬ ∀ (D : Type) (_ : DecidableEq D) (resolve : List Char → D) (cmds : List SpillCmd) (i : Fin 12),
      (isSnapshot ((cmds.foldl (spillStep resolve) (Spill.start D)).sess i) = false →
        ∀ f ∈ (cmds.foldl (spillStep resolve) (Spill.start D)).files, ∀ k, f.name ≠ spillBaseName i k) ∧
      ∀ f ∈ (cmds.foldl (spillStep resolve) (Spill.start D)).uses i,
        f ∈ (cmds.foldl (spillStep resolve) (Spill.start D)).files := by
  intro h
  obtain ⟨hgone, -⟩ := h (List Char) inferInstance id
    [.turbo 0 (.start keepFirstStart), .config "/mnt/usb0".toList, .disconnect 0] 0
  exact hgone (by decide) ⟨"/data".toList, spillBaseName 0 .first⟩ (by decide) .first rfl

end Ps5Debugger
