import Ps5Debugger.Watchlist

/-!
# Freezing the items of the watchlist

An item that is frozen in the watchlist has its bytes in `frozenAddresses`, from where they are written to the
game again and again. The list changes with the call, the map in a coroutine that the call launches
(`WatchlistManager.kt`). Coroutines may go on in any order, and one that freezes waits for the memory first.

`frozen_writes_follow` says when the map follows the list all the same: the coroutines of one address go on in
the order of their calls, reads bring as many bytes as the type of the item has, and only items of the list are
frozen, all of them by the toggle.
-/

namespace Ps5Debugger

open Lib

namespace WatchlistManager

/-- `typeSizeBytes(type, byteLength)` -/
def typeSizeBytes (type : String) (byteLength : Option Int32) : Int32 :=
  match byteLength with
  | some n => max n 1
  | none => Int32.ofNat (typeSize type)

end WatchlistManager

namespace FrozenWrites

open WatchlistManager (addWatchItem updateWatchItem removeWatchItem toggled typeSizeBytes Distinct)

/-! ## The coroutines -/

/-- A coroutine that has not completed: one that reads the memory of an item to freeze it, one that has read
it, one in `unfreeze` and one in `clearFrozen`. -/
inductive Task : Type where
  | read (item : WatchItem)
  | freeze (address : Int64) (value : List UInt8)
  | unfreeze (address : Int64)
  | clearFrozen

/-- The list, the map and the coroutines in the order of their calls. -/
structure State where
  watchlist : List WatchItem
  frozenAddresses : Int64 → Option (List UInt8)
  tasks : List Task

def State.init : State := ⟨[], fun _ => none, []⟩

/-- What can happen: a call, or a coroutine goes on, with the memory as it then is. -/
inductive Step : Type where
  | addWatchItem (item : WatchItem)
  | removeWatchItem (item : WatchItem)
  | toggleFreezeWatchItem (item : WatchItem)
  | clear
  | proceed (i : Nat) (readMemory : Int64 → Int32 → Option (List UInt8))

/-- The coroutine of a toggle. -/
def toggleTask (item : WatchItem) : Task :=
  if (toggled item).isFrozen then .read item else .unfreeze item.address

/-- How far a coroutine gets before it waits again, if it does not complete, and the map then. -/
def Task.proceed (readMemory : Int64 → Int32 → Option (List UInt8)) (frozen : Int64 → Option (List UInt8)) :
    Task → Option Task × (Int64 → Option (List UInt8))
  | .read item =>
    match readMemory item.address (item.byteLength.getD 4) with
    | some data => (some (.freeze item.address data), frozen)
    | none => (none, frozen)
  | .freeze address value => (none, Function.update frozen address (some value))
  | .unfreeze address => (none, Function.update frozen address none)
  | .clearFrozen => (none, fun _ => none)

def step (s : State) : Step → State
  | .addWatchItem item => { s with watchlist := addWatchItem item s.watchlist }
  | .removeWatchItem item =>
    { s with watchlist := removeWatchItem item s.watchlist, tasks := s.tasks ++ [.unfreeze item.address] }
  | .toggleFreezeWatchItem item =>
    { s with watchlist := updateWatchItem (toggled item) s.watchlist, tasks := s.tasks ++ [toggleTask item] }
  | .clear => { s with watchlist := [], tasks := s.tasks ++ [.clearFrozen] }
  | .proceed i readMemory =>
    match s.tasks[i]? with
    | some task =>
      let (rest, frozen) := task.proceed readMemory s.frozenAddresses
      { s with frozenAddresses := frozen, tasks := s.tasks.take i ++ rest.toList ++ s.tasks.drop (i + 1) }
    | none => s

/-! ## What is right -/

/-- The map has the addresses of the frozen items, each with the bytes of its type. -/
def Follows (s : State) : Prop :=
  (∀ a, (s.frozenAddresses a).isSome ↔ ∃ item ∈ s.watchlist, item.isFrozen ∧ item.address = a) ∧
    ∀ item ∈ s.watchlist, item.isFrozen → ∀ value, s.frozenAddresses item.address = some value →
      (value.length : Int) = (typeSizeBytes item.type item.byteLength).toInt

/-- The bytes of an item, if it is frozen. -/
def frozenSize (item : WatchItem) : Option Int :=
  if item.isFrozen then some (typeSizeBytes item.type item.byteLength).toInt else none

/-- What a coroutine leaves at an address, if it does anything there: nothing, or so many bytes. -/
def Task.leaves (a : Int64) : Task → Option (Option Int)
  | .read item =>
    if item.address = a then some (some (typeSizeBytes item.type item.byteLength).toInt) else none
  | .freeze address value => if address = a then some (some value.length) else none
  | .unfreeze address => if address = a then some none else none
  | .clearFrozen => some none

/-- The two coroutines have no address in common. -/
def Task.Apart (t t' : Task) : Prop := ∀ a, t.leaves a = none ∨ t'.leaves a = none

/-- A read that is to freeze an item brings the bytes of its type. -/
def Task.Reads (readMemory : Int64 → Int32 → Option (List UInt8)) : Task → Prop
  | .read item => ∃ data, readMemory item.address (item.byteLength.getD 4) = some data ∧
      (data.length : Int) = (typeSizeBytes item.type item.byteLength).toInt
  | _ => True

/-- No frozen item is added to the list, one that is to be frozen is in it, and a coroutine goes on after those
of its address that were launched before it, and with all the bytes of the type that it reads. -/
def InOrder (s : State) : Step → Prop
  | .addWatchItem item => item.isFrozen → ∃ it ∈ s.watchlist, it.address = item.address
  | .toggleFreezeWatchItem item => (toggled item).isFrozen → ∃ it ∈ s.watchlist, it.address = item.address
  | .proceed i readMemory => ∀ task ∈ s.tasks[i]?,
      (∀ earlier ∈ s.tasks.take i, earlier.Apart task) ∧ task.Reads readMemory
  | _ => True

/-! ## What the list asks for -/

section Expected

variable {l : List WatchItem} {item : WatchItem} {a : Int64}

/-- What the list says of an address. -/
def expected (l : List WatchItem) (a : Int64) : Option Int :=
  (l.find? (·.address == a)).bind frozenSize

@[simp] theorem toggled_address : (toggled item).address = item.address := rfl

theorem find_address (hl : Distinct l) {it : WatchItem} :
    l.find? (·.address == a) = some it ↔ it ∈ l ∧ it.address = a := by
  constructor
  · intro h
    exact ⟨List.mem_of_find?_eq_some h, by simpa using List.find?_some h⟩
  · rintro ⟨hit, ha⟩
    cases hf : l.find? (·.address == a) with
    | none => exact absurd (beq_iff_eq.mpr ha) (List.find?_eq_none.mp hf it hit)
    | some it' =>
      have ha' : it'.address = a := by simpa using List.find?_some hf
      rw [List.inj_on_of_nodup_map hl (List.mem_of_find?_eq_some hf) hit (ha'.trans ha.symm)]

theorem expected_some (hl : Distinct l) {n : Int} :
    expected l a = some n ↔ ∃ item ∈ l, item.address = a ∧ frozenSize item = some n := by
  rw [expected, Option.bind_eq_some_iff]
  exact exists_congr fun it => by rw [find_address hl, and_assoc]

theorem frozenSize_of_unused (h : item.isFrozen → ∃ it ∈ l, it.address = item.address)
    (hunused : ¬ ∃ it ∈ l, it.address = item.address) : frozenSize item = none :=
  if_neg fun hfrozen => hunused (h hfrozen)

/-- Adding an item freezes nothing. -/
theorem expected_addWatchItem (h : item.isFrozen → ∃ it ∈ l, it.address = item.address) :
    expected (addWatchItem item l) a = expected l a := by
  unfold addWatchItem
  split
  · rename_i hfree
    rw [expected, expected, List.find?_append]
    cases l.find? (·.address == a) with
    | some it => rfl
    | none =>
      have hsize : frozenSize item = none :=
        frozenSize_of_unused h (WatchlistManager.all_address.mp hfree)
      rw [Option.none_or, List.find?_singleton]
      split
      · exact hsize
      · rfl
  · rfl

theorem expected_removeWatchItem :
    expected (removeWatchItem item l) a = if item.address = a then none else expected l a := by
  rw [expected, removeWatchItem, List.find?_filter]
  by_cases ha : item.address = a
  · rw [if_pos ha, List.find?_eq_none.mpr, Option.bind_none]
    rintro it - hit
    simp [ha] at hit
  · rw [if_neg ha, expected]
    refine congrArg (fun p => (l.find? p).bind frozenSize) (funext fun it => ?_)
    by_cases hit : it.address = a
    · simp [hit, Ne.symm ha]
    · simp [hit]

theorem expected_updateWatchItem (h : item.isFrozen → ∃ it ∈ l, it.address = item.address) :
    expected (updateWatchItem item l) a = if item.address = a then frozenSize item else expected l a := by
  have hkeep : (fun it : WatchItem => it.address == a) ∘ (fun it => if it.address = item.address then item else it)
      = fun it => it.address == a := by
    funext it
    by_cases ha : it.address = item.address
    · rw [Function.comp_apply, if_pos ha, ha]
    · rw [Function.comp_apply, if_neg ha]
  rw [expected, updateWatchItem, List.find?_map, hkeep]
  by_cases ha : item.address = a
  · rw [if_pos ha]
    cases hf : l.find? (·.address == a) with
    | none =>
      refine (frozenSize_of_unused h ?_).symm
      rintro ⟨it, hit, haddr⟩
      exact List.find?_eq_none.mp hf it hit (beq_iff_eq.mpr (haddr.trans ha))
    | some it' =>
      have ha' : it'.address = a := by simpa using List.find?_some hf
      rw [Option.map_some, Option.bind_some, if_pos (ha'.trans ha.symm)]
  · rw [if_neg ha, expected]
    cases hf : l.find? (·.address == a) with
    | none => rfl
    | some it' =>
      have ha' : it'.address = a := by simpa using List.find?_some hf
      rw [Option.map_some, Option.bind_some, Option.bind_some, if_neg fun h => ha (h.symm.trans ha')]

end Expected

/-! ## What the coroutines will leave -/

section Eventual

variable {a : Int64} {v : Option Int} {t : Task} {ts : List Task}

/-- The bytes at an address after the coroutines, one after the other. -/
def eventual (a : Int64) (v : Option Int) (ts : List Task) : Option Int :=
  ts.foldl (fun v t => (t.leaves a).getD v) v

theorem eventual_append {ts' : List Task} :
    eventual a v (ts ++ ts') = eventual a (eventual a v ts) ts' := List.foldl_append

theorem eventual_cons : eventual a v (t :: ts) = eventual a ((t.leaves a).getD v) ts := rfl

theorem eventual_of_apart (h : ∀ t ∈ ts, t.leaves a = none) : eventual a v ts = v := by
  induction ts with
  | nil => rfl
  | cons t ts ih =>
    rw [eventual_cons, h t List.mem_cons_self]
    exact ih fun t ht => h t (List.mem_cons_of_mem _ ht)

/-- Coroutines may go first that have the address not in common with those before them. -/
theorem eventual_first {before ts after : List Task}
    (h : (∀ t ∈ before, t.leaves a = none) ∨ ∀ t ∈ ts, t.leaves a = none) :
    eventual a v (before ++ ts ++ after) = eventual a (eventual a v ts) (before ++ after) := by
  rw [eventual_append, eventual_append, eventual_append]
  rcases h with hbefore | hts
  · rw [eventual_of_apart hbefore, eventual_of_apart hbefore]
  · rw [eventual_of_apart hts, eventual_of_apart hts]

/-- The numbers of bytes in the map. -/
def sizes (frozen : Int64 → Option (List UInt8)) (a : Int64) : Option Int :=
  (frozen a).map fun value => (value.length : Int)

/-- A coroutine that goes on leaves what it was to leave. -/
theorem Task.proceed_leaves {readMemory : Int64 → Int32 → Option (List UInt8)}
    {frozen : Int64 → Option (List UInt8)} (h : t.Reads readMemory) :
    eventual a (sizes (t.proceed readMemory frozen).2 a) (t.proceed readMemory frozen).1.toList =
      (t.leaves a).getD (sizes frozen a) := by
  cases t with
  | read item =>
    obtain ⟨data, hread, hlen⟩ := h
    simp only [Task.proceed, hread, Option.toList_some, eventual_cons, Task.leaves, hlen]
    rfl
  | freeze address value =>
    simp only [Task.proceed, Option.toList_none, Task.leaves, sizes]
    by_cases ha : address = a
    · rw [if_pos ha, ha, Function.update_self]
      rfl
    · rw [if_neg ha, Function.update_of_ne (Ne.symm ha)]
      rfl
  | unfreeze address =>
    simp only [Task.proceed, Option.toList_none, Task.leaves, sizes]
    by_cases ha : address = a
    · rw [if_pos ha, ha, Function.update_self]
      rfl
    · rw [if_neg ha, Function.update_of_ne (Ne.symm ha)]
      rfl
  | clearFrozen => rfl

/-- A coroutine is apart from one of which there is no more left than before. -/
theorem Task.proceed_apart {readMemory : Int64 → Int32 → Option (List UInt8)}
    {frozen : Int64 → Option (List UInt8)} (h : t.leaves a = none) :
    ∀ rest ∈ (t.proceed readMemory frozen).1, rest.leaves a = none := by
  cases t with
  | read item =>
    have ha : ¬ item.address = a := fun ha => by simp [Task.leaves, ha] at h
    intro rest hrest
    cases hread : readMemory item.address (item.byteLength.getD 4) with
    | none =>
      rw [Task.proceed, hread] at hrest
      exact absurd hrest nofun
    | some data =>
      rw [Task.proceed, hread] at hrest
      obtain rfl := Option.some.inj hrest
      exact if_neg ha
  | freeze | unfreeze | clearFrozen => exact nofun

end Eventual

/-! ## The runs -/

/-- One item at an address, and the coroutines that are to go on will leave what the list says. -/
structure Inv (s : State) : Prop where
  distinct : Distinct s.watchlist
  leads : ∀ a, eventual a (sizes s.frozenAddresses a) s.tasks = expected s.watchlist a

theorem inv_init : Inv State.init := ⟨List.nodup_nil, fun _ => rfl⟩

/-- A call that launches a coroutine for what it does to the list. -/
theorem Inv.launch {s : State} (h : Inv s) {l : List WatchItem} {t : Task} (hl : Distinct l)
    (ht : ∀ a, (t.leaves a).getD (expected s.watchlist a) = expected l a) :
    Inv { s with watchlist := l, tasks := s.tasks ++ [t] } := by
  refine ⟨hl, fun a => ?_⟩
  rw [eventual_append, h.leads, ← ht]
  rfl

/-- A coroutine goes on in its turn. -/
theorem Inv.proceed {s : State} (h : Inv s) {before after : List Task} {t : Task}
    {readMemory : Int64 → Int32 → Option (List UInt8)} (htasks : s.tasks = before ++ t :: after)
    (hturn : ∀ earlier ∈ before, earlier.Apart t) (hreads : t.Reads readMemory) :
    Inv { s with
      frozenAddresses := (t.proceed readMemory s.frozenAddresses).2
      tasks := before ++ (t.proceed readMemory s.frozenAddresses).1.toList ++ after } := by
  refine ⟨h.distinct, fun a => ?_⟩
  have hapart : (∀ earlier ∈ before, earlier.leaves a = none) ∨ t.leaves a = none := by
    by_cases ht : t.leaves a = none
    · exact .inr ht
    · exact .inl fun earlier hmem => (hturn earlier hmem a).resolve_right ht
  have hrest : (∀ earlier ∈ before, earlier.leaves a = none) ∨
      ∀ rest ∈ (t.proceed readMemory s.frozenAddresses).1.toList, rest.leaves a = none :=
    hapart.imp_right fun ht rest hmem => Task.proceed_apart ht rest (Option.mem_toList.mp hmem)
  have hone : (∀ earlier ∈ before, earlier.leaves a = none) ∨ ∀ u ∈ [t], u.leaves a = none :=
    hapart.imp_right fun ht u hmem => by rw [List.mem_singleton.mp hmem, ht]
  rw [← h.leads, htasks, eventual_first hrest, Task.proceed_leaves hreads, List.append_cons,
    eventual_first hone]
  rfl

theorem Inv.step {s : State} (h : Inv s) {a : Step} (hok : InOrder s a) : Inv (step s a) := by
  cases a with
  | addWatchItem item => exact ⟨h.distinct.addWatchItem, fun a => (h.leads a).trans (expected_addWatchItem hok).symm⟩
  | removeWatchItem item =>
    refine h.launch h.distinct.removeWatchItem fun a => ?_
    rw [expected_removeWatchItem, Task.leaves]
    split <;> rfl
  | toggleFreezeWatchItem item =>
    refine h.launch h.distinct.updateWatchItem fun a => ?_
    rw [expected_updateWatchItem hok, toggled_address, toggleTask, frozenSize]
    by_cases hfrozen : (toggled item).isFrozen
    · rw [if_pos hfrozen, if_pos hfrozen, Task.leaves]
      split <;> rfl
    · rw [if_neg hfrozen, if_neg hfrozen, Task.leaves]
      split <;> rfl
  | clear => exact h.launch List.nodup_nil fun a => rfl
  | proceed i readMemory =>
    cases ht : s.tasks[i]? with
    | none =>
      have heq : FrozenWrites.step s (.proceed i readMemory) = s := by simp only [FrozenWrites.step, ht]
      rw [heq]
      exact h
    | some t =>
      obtain ⟨hturn, hreads⟩ := hok t ht
      obtain ⟨hlt, hget⟩ := List.getElem?_eq_some_iff.mp ht
      have htasks : s.tasks = s.tasks.take i ++ t :: s.tasks.drop (i + 1) := by
        rw [← hget, List.getElem_cons_drop, List.take_append_drop]
      have hinv := h.proceed htasks hturn hreads
      simp only [FrozenWrites.step, ht]
      exact hinv

/-- When all coroutines have completed, the map is what the list says. -/
theorem Inv.follows {s : State} (h : Inv s) (hdone : s.tasks = []) : Follows s := by
  have hsizes : ∀ a, sizes s.frozenAddresses a = expected s.watchlist a := fun a => by
    rw [← h.leads a, hdone]
    rfl
  have hitem : ∀ item ∈ s.watchlist, item.isFrozen →
      sizes s.frozenAddresses item.address = some (typeSizeBytes item.type item.byteLength).toInt :=
    fun item hmem hfrozen =>
      (hsizes _).trans ((expected_some h.distinct).mpr ⟨item, hmem, rfl, if_pos hfrozen⟩)
  refine ⟨fun a => ⟨fun hsome => ?_, ?_⟩, fun item hmem hfrozen value hvalue => ?_⟩
  · obtain ⟨value, hvalue⟩ := Option.isSome_iff_exists.mp hsome
    have hsize : expected s.watchlist a = some (value.length : Int) := by rw [← hsizes, sizes, hvalue, Option.map_some]
    obtain ⟨item, hmem, ha, hfrozen⟩ := (expected_some h.distinct).mp hsize
    refine ⟨item, hmem, ?_, ha⟩
    by_contra hnot
    rw [frozenSize, if_neg hnot] at hfrozen
    exact absurd hfrozen nofun
  · rintro ⟨item, hmem, hfrozen, rfl⟩
    have hsize := hitem item hmem hfrozen
    rw [sizes, Option.map_eq_some_iff] at hsize
    obtain ⟨value, hvalue, -⟩ := hsize
    rw [hvalue]
    rfl
  · have hsize := hitem item hmem hfrozen
    rw [sizes, hvalue, Option.map_some] at hsize
    exact Option.some.inj hsize

/-! ## Whether the map follows the list -/

/-- **Frozen writes.** In a run whose calls freeze only items of the list, and whose coroutines go on in the
order of their calls as far as they have an address in common, and with all the bytes that they read, the map
has the frozen items of the list, with their bytes, whenever all coroutines have completed. -/
theorem frozen_writes_follow (acts : List Step) (h : Along step InOrder State.init acts) :
    Along step (fun s a => (step s a).tasks = [] → Follows (step s a)) State.init acts :=
  Along.of_invariant Inv (fun _ _ hinv hok => ⟨hinv.step hok, (hinv.step hok).follows⟩) acts inv_init h

/-- An item is frozen and unfrozen; the coroutines go on in turn. -/
theorem freeze_and_unfreeze :
    Along step (fun s a => (step s a).tasks = [] → Follows (step s a)) State.init
      [.addWatchItem ⟨"hp", 16, "Int32", "??", false, "", none⟩,
        .toggleFreezeWatchItem ⟨"hp", 16, "Int32", "??", false, "", none⟩, .proceed 0 fun _ _ => some [1, 2, 3, 4],
        .proceed 0 fun _ _ => none, .toggleFreezeWatchItem ⟨"hp", 16, "Int32", "??", true, "", none⟩,
        .proceed 0 fun _ _ => none] := by
  refine frozen_writes_follow _ ⟨nofun, fun _ => ⟨_, List.mem_singleton_self _, rfl⟩, ?_, ?_, nofun, ?_, trivial⟩
  · intro task htask
    obtain rfl := Option.some.inj htask
    exact ⟨nofun, [1, 2, 3, 4], rfl, rfl⟩
  · intro task htask
    obtain rfl := Option.some.inj htask
    exact ⟨nofun, trivial⟩
  · intro task htask
    obtain rfl := Option.some.inj htask
    exact ⟨nofun, trivial⟩

/-- An item of eight bytes, frozen without a length of its own, is held by four. -/
theorem int64_half_frozen : ¬ ∀ acts : List Step,
    (acts.foldl step State.init).tasks = [] → Follows (acts.foldl step State.init) := by
  intro h
  have hfollows := h [.addWatchItem ⟨"hp", 16, "Int64", "??", false, "", none⟩,
    .toggleFreezeWatchItem ⟨"hp", 16, "Int64", "??", false, "", none⟩,
    .proceed 0 fun _ n => some (List.replicate n.toInt.toNat 0), .proceed 0 fun _ _ => none] rfl
  have hlength := hfollows.2 _ (List.mem_singleton_self _) rfl [0, 0, 0, 0] rfl
  revert hlength
  decide +kernel

end FrozenWrites

end Ps5Debugger
