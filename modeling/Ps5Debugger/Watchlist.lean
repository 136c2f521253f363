import Mathlib.Data.List.Nodup
import Ps5Debugger.Lib.Machine

/-!
# The watchlist

`WatchlistManager` (`WatchlistManager.kt`) keeps the items that a user watches, one for each address. The
operations of the user change the list at once. Next to them a coroutine brings the values up to date, in
rounds: it reads the list, reads the memory of one item after the other, and writes the list back.

What an operation does between the read and the write of a round is lost with the write.
`updater_loses_nothing_iff` says that this is all that can go wrong.
-/

namespace Ps5Debugger

open Lib

/-- `WatchItem` -/
structure WatchItem where
  label : String
  address : Int64
  type : String
  valueStr : String := "??"
  isFrozen : Bool := false
  comment : String := ""
  byteLength : Option Int32 := none
  deriving DecidableEq

/-- The size of a type. -/
def typeSize (type : String) : Nat :=
  match type with
  | "Byte" => 1
  | "Int16" => 2
  | "Int32" => 4
  | "Int64" => 8
  | "Float" => 4
  | "Double" => 8
  | "String" => 32
  | _ => 4

namespace WatchlistManager

/-! ## The operations -/

/-- `address.toString(16).uppercase()` -/
def hexUpper (address : Int64) : String :=
  (if address < 0 then "-" else "") ++ String.ofList ((Nat.toDigits 16 address.toInt.natAbs).map Char.toUpper)

/-- `addWatchItem` -/
def addWatchItem (item : WatchItem) (list : List WatchItem) : List WatchItem :=
  if list.all (·.address != item.address) then list ++ [item] else list

/-- `addToWatchlist` -/
def addToWatchlist (address : Int64) (type : String) (byteLength : Option Int32) (list : List WatchItem) :
    List WatchItem :=
  let item : WatchItem := { label := "HexWatch_0x" ++ hexUpper address, address, type, byteLength }
  if list.all (·.address != address) then list ++ [item] else list

/-- `updateWatchItem` -/
def updateWatchItem (item : WatchItem) (list : List WatchItem) : List WatchItem :=
  list.map fun it => if it.address = item.address then item else it

/-- `removeWatchItem` -/
def removeWatchItem (item : WatchItem) (list : List WatchItem) : List WatchItem :=
  list.filter (·.address != item.address)

/-- `item.copy(isFrozen = !item.isFrozen)` -/
def toggled (item : WatchItem) : WatchItem := { item with isFrozen := !item.isFrozen }

/-- What a user can do to the list. -/
inductive UserOp : Type where
  | addToWatchlist (address : Int64) (type : String) (byteLength : Option Int32)
  | addWatchItem (item : WatchItem)
  | updateWatchItem (item : WatchItem)
  | removeWatchItem (item : WatchItem)
  | toggleFreezeWatchItem (item : WatchItem)
  | clear

/-- The list after an operation. -/
def UserOp.apply : UserOp → List WatchItem → List WatchItem
  | .addToWatchlist address type byteLength, list => WatchlistManager.addToWatchlist address type byteLength list
  | .addWatchItem item, list => WatchlistManager.addWatchItem item list
  | .updateWatchItem item, list => WatchlistManager.updateWatchItem item list
  | .removeWatchItem item, list => WatchlistManager.removeWatchItem item list
  | .toggleFreezeWatchItem item, list => WatchlistManager.updateWatchItem (toggled item) list
  | .clear, _ => []

/-! ## The updater -/

/-- A round of the updater: the items that it has read from the list, and those of them whose values are up
to date. -/
structure Round where
  items : List WatchItem
  updated : List WatchItem

/-- The list, the round in progress, and the list that the operations alone would have made. -/
structure State where
  watchlist : List WatchItem
  round : Option Round
  asked : List WatchItem

def State.init : State := ⟨[], none, []⟩

/-- What can happen. The updater reads a list, reads one item, whose value becomes this text, or writes
the list back. (The list that it asks for being empty may be an older one than the list that it reads.) -/
inductive Step : Type where
  | op (u : UserOp)
  | read
  | readItem (valueStr : String)
  | write

/-- A step; the steps of the updater come in the order of its code. -/
def step (s : State) : Step → State
  | .op u => { s with watchlist := u.apply s.watchlist, asked := u.apply s.asked }
  | .read =>
    match s.round with
    | none => { s with round := some ⟨s.watchlist, []⟩ }
    | some _ => s
  | .readItem valueStr =>
    match s.round with
    | some r =>
      match r.items[r.updated.length]? with
      | some item => { s with round := some { r with updated := r.updated ++ [{ item with valueStr }] } }
      | none => s
    | none => s
  | .write =>
    match s.round with
    | some r =>
      if r.updated.length = r.items.length then { s with watchlist := r.updated, round := none }
      else s
    | none => s

/-! ## What is right -/

/-- An item without its value. -/
def bare (item : WatchItem) : WatchItem := { item with valueStr := "" }

/-- Two lists of the same items, values apart. -/
def SameItems (l l' : List WatchItem) : Prop := ∀ x, x ∈ l.map bare ↔ x ∈ l'.map bare

/-- No two items share an address. -/
def Distinct (l : List WatchItem) : Prop := (l.map WatchItem.address).Nodup

/-- The round that the step ends. -/
def ended (s : State) : Step → Option Round
  | .write => s.round.filter fun r => r.updated.length = r.items.length
  | _ => none

/-- If the step ends a round, the list is then what the operations alone have made of it. -/
def Faithful (s : State) (a : Step) : Prop :=
  (ended s a).isSome → SameItems (step s a).watchlist (step s a).asked ∧ Distinct (step s a).watchlist

/-- If the step ends a round, the list has the items that the round read: what was done to it since had no
effect together. -/
def Undisturbed (s : State) (a : Step) : Prop := ∀ r ∈ ended s a, SameItems r.items s.watchlist

/-! ## The operations and the items -/

section Operations

variable {l l' : List WatchItem} {item x : WatchItem}

theorem SameItems.symm (h : SameItems l l') : SameItems l' l := fun x => (h x).symm

theorem SameItems.trans {l'' : List WatchItem} (h : SameItems l l') (h' : SameItems l' l'') : SameItems l l'' :=
  fun x => (h x).trans (h' x)

@[simp] theorem bare_address : (bare item).address = item.address := rfl

/-- A new address is added like an item of that address. -/
theorem addToWatchlist_eq (address : Int64) (type : String) (byteLength : Option Int32) (l : List WatchItem) :
    addToWatchlist address type byteLength l =
      addWatchItem { label := "HexWatch_0x" ++ hexUpper address, address, type, byteLength } l := rfl

/-- An address is in use. -/
theorem exists_address {a : Int64} : (∃ it ∈ l, it.address = a) ↔ ∃ y ∈ l.map bare, y.address = a := by
  simp

theorem all_address {a : Int64} : l.all (·.address != a) = true ↔ ¬ ∃ it ∈ l, it.address = a := by
  simp

/-- Adding adds the item if its address is not in use. -/
theorem mem_addWatchItem : x ∈ (addWatchItem item l).map bare ↔
    x ∈ l.map bare ∨ ((¬ ∃ y ∈ l.map bare, y.address = item.address) ∧ x = bare item) := by
  rw [← exists_address, ← all_address]
  unfold addWatchItem
  split
  · rename_i hfree
    rw [List.map_append, List.mem_append, List.map_singleton, List.mem_singleton, and_iff_right hfree]
  · rename_i hused
    exact (or_iff_left fun h => hused h.1).symm

/-- An update puts the item in the place of the one at its address. -/
theorem mem_updateWatchItem : x ∈ (updateWatchItem item l).map bare ↔
    (x ∈ l.map bare ∧ x.address ≠ item.address) ∨
      ((∃ y ∈ l.map bare, y.address = item.address) ∧ x = bare item) := by
  rw [← exists_address]
  simp only [updateWatchItem, List.map_map, List.mem_map, Function.comp_apply]
  constructor
  · rintro ⟨it, hit, rfl⟩
    by_cases ha : it.address = item.address
    · rw [if_pos ha]
      exact .inr ⟨⟨it, hit, ha⟩, rfl⟩
    · rw [if_neg ha]
      exact .inl ⟨⟨it, hit, rfl⟩, ha⟩
  · rintro (⟨⟨it, hit, rfl⟩, ha⟩ | ⟨⟨it, hit, ha⟩, rfl⟩)
    · exact ⟨it, hit, congrArg bare (if_neg ha)⟩
    · exact ⟨it, hit, congrArg bare (if_pos ha)⟩

/-- A removal removes what is at the address. -/
theorem mem_removeWatchItem : x ∈ (removeWatchItem item l).map bare ↔
    x ∈ l.map bare ∧ x.address ≠ item.address := by
  simp only [removeWatchItem, List.mem_map, List.mem_filter, bne_iff_ne]
  constructor
  · rintro ⟨it, ⟨hit, ha⟩, rfl⟩
    exact ⟨⟨it, hit, rfl⟩, ha⟩
  · rintro ⟨⟨it, hit, rfl⟩, ha⟩
    exact ⟨it, ⟨hit, ha⟩, rfl⟩

theorem SameItems.exists_address (h : SameItems l l') {a : Int64} :
    (∃ y ∈ l.map bare, y.address = a) ↔ ∃ y ∈ l'.map bare, y.address = a :=
  exists_congr fun y => and_congr_left' (h y)

theorem SameItems.addWatchItem (h : SameItems l l') : SameItems (addWatchItem item l) (addWatchItem item l') := by
  intro x
  rw [mem_addWatchItem, mem_addWatchItem, h x, h.exists_address]

theorem SameItems.updateWatchItem (h : SameItems l l') :
    SameItems (updateWatchItem item l) (updateWatchItem item l') := by
  intro x
  rw [mem_updateWatchItem, mem_updateWatchItem, h x, h.exists_address]

theorem SameItems.removeWatchItem (h : SameItems l l') :
    SameItems (removeWatchItem item l) (removeWatchItem item l') := by
  intro x
  rw [mem_removeWatchItem, mem_removeWatchItem, h x]

/-- Values apart, an operation does to the items the same in every list. -/
theorem SameItems.apply (h : SameItems l l') (u : UserOp) : SameItems (u.apply l) (u.apply l') := by
  cases u with
  | addToWatchlist address type byteLength =>
    rw [UserOp.apply, addToWatchlist_eq]
    exact h.addWatchItem
  | addWatchItem => exact h.addWatchItem
  | updateWatchItem => exact h.updateWatchItem
  | removeWatchItem => exact h.removeWatchItem
  | toggleFreezeWatchItem => exact h.updateWatchItem
  | clear => exact fun _ => Iff.rfl

theorem Distinct.addWatchItem (h : Distinct l) : Distinct (addWatchItem item l) := by
  unfold WatchlistManager.addWatchItem
  split
  · rename_i hfree
    rw [all_address] at hfree
    rw [Distinct, List.map_append, List.map_singleton]
    refine h.append (List.nodup_singleton _) fun a ha hitem => hfree ?_
    rw [← List.mem_singleton.mp hitem]
    exact List.mem_map.mp ha
  · exact h

theorem Distinct.updateWatchItem (h : Distinct l) : Distinct (updateWatchItem item l) := by
  have hsame : (WatchlistManager.updateWatchItem item l).map WatchItem.address = l.map WatchItem.address := by
    rw [WatchlistManager.updateWatchItem, List.map_map]
    refine List.map_congr_left fun it _ => ?_
    by_cases ha : it.address = item.address
    · rw [Function.comp_apply, if_pos ha, ha]
    · rw [Function.comp_apply, if_neg ha]
  rw [Distinct, hsame]
  exact h

theorem Distinct.removeWatchItem (h : Distinct l) : Distinct (removeWatchItem item l) :=
  h.sublist (List.filter_sublist.map _)

/-- Every operation leaves one item at an address. -/
theorem Distinct.apply (h : Distinct l) (u : UserOp) : Distinct (u.apply l) := by
  cases u with
  | addToWatchlist address type byteLength =>
    rw [UserOp.apply, addToWatchlist_eq]
    exact h.addWatchItem
  | addWatchItem => exact h.addWatchItem
  | updateWatchItem => exact h.updateWatchItem
  | removeWatchItem => exact h.removeWatchItem
  | toggleFreezeWatchItem => exact h.updateWatchItem
  | clear => exact List.nodup_nil

end Operations

/-! ## The rounds -/

/-- As far as a round has come, it has the items that it read, values apart. -/
def Round.Sound (r : Round) : Prop :=
  r.updated.map bare = (r.items.take r.updated.length).map bare

/-- Reading one more item. -/
theorem Round.Sound.readItem {r : Round} (h : r.Sound) {item : WatchItem}
    (hitem : r.items[r.updated.length]? = some item) (valueStr : String) :
    Round.Sound { r with updated := r.updated ++ [{ item with valueStr }] } := by
  unfold Round.Sound at h ⊢
  obtain ⟨hlt, hget⟩ := List.getElem?_eq_some_iff.mp hitem
  have hbare : bare { item with valueStr } = bare item := rfl
  rw [List.length_append, List.length_singleton, ← List.take_append_getElem hlt, List.map_append, List.map_append,
    h, hget, List.map_singleton, List.map_singleton, hbare]

/-- At its end a round has the items that it read, values apart. -/
theorem Round.Sound.complete {r : Round} (h : r.Sound) (hend : r.updated.length = r.items.length) :
    r.updated.map bare = r.items.map bare := by
  rw [h, hend, List.take_length]

theorem distinct_of_bare {l l' : List WatchItem} (h : l.map bare = l'.map bare) (hl : Distinct l') :
    Distinct l := by
  have haddr : ∀ l : List WatchItem, l.map WatchItem.address = (l.map bare).map WatchItem.address := fun l => by
    rw [List.map_map]
    rfl
  rw [Distinct, haddr, h, ← haddr]
  exact hl

/-- What the steps keep as long as no round is disturbed. -/
structure Inv (s : State) : Prop where
  same : SameItems s.watchlist s.asked
  distinct : Distinct s.watchlist
  round : ∀ r ∈ s.round, r.Sound ∧ Distinct r.items

theorem inv_init : Inv State.init := ⟨fun _ => Iff.rfl, List.nodup_nil, nofun⟩

/-- A write that ends a round. -/
theorem step_write {s : State} {r : Round} (hr : s.round = some r) (hend : r.updated.length = r.items.length) :
    step s .write = { s with watchlist := r.updated, round := none } := by
  simp only [step, hr, if_pos hend]

theorem ended_write {s : State} {r : Round} :
    r ∈ ended s .write ↔ s.round = some r ∧ r.updated.length = r.items.length := by
  simp [ended]

/-- A step that ends no round leaves the list to the operations. -/
theorem Inv.step_of_not_ended {s : State} (h : Inv s) {a : Step} (hno : ended s a = none) : Inv (step s a) := by
  cases a with
  | op u => exact ⟨h.same.apply u, h.distinct.apply u, h.round⟩
  | read =>
    cases hr : s.round with
    | none =>
      have heq : step s .read = { s with round := some ⟨s.watchlist, []⟩ } := by simp only [step, hr]
      rw [heq]
      refine ⟨h.same, h.distinct, fun r hmem => ?_⟩
      obtain rfl := Option.some.inj hmem
      exact ⟨rfl, h.distinct⟩
    | some r =>
      have heq : step s .read = s := by simp only [step, hr]
      rw [heq]
      exact h
  | readItem valueStr =>
    cases hr : s.round with
    | none =>
      have heq : step s (.readItem valueStr) = s := by simp only [step, hr]
      rw [heq]
      exact h
    | some r =>
      obtain ⟨hsound, hdistinct⟩ := h.round r hr
      cases hitem : r.items[r.updated.length]? with
      | none =>
        have heq : step s (.readItem valueStr) = s := by simp only [step, hr, hitem]
        rw [heq]
        exact h
      | some item =>
        have heq : step s (.readItem valueStr) =
            { s with round := some { r with updated := r.updated ++ [{ item with valueStr }] } } := by
          simp only [step, hr, hitem]
        rw [heq]
        refine ⟨h.same, h.distinct, fun r' hmem => ?_⟩
        obtain rfl := Option.some.inj hmem
        exact ⟨hsound.readItem hitem valueStr, hdistinct⟩
  | write =>
    have heq : step s .write = s := by
      cases hr : s.round with
      | none => simp only [step, hr]
      | some r =>
        have hlen : r.updated.length ≠ r.items.length := fun hend => by
          have hmem := ended_write.mpr ⟨hr, hend⟩
          rw [hno] at hmem
          exact absurd hmem nofun
        simp only [step, hr, if_neg hlen]
    rw [heq]
    exact h

/-- The end of a round loses nothing exactly if the list still has the items that the round read. -/
theorem Inv.faithful_iff {s : State} (h : Inv s) (a : Step) : Faithful s a ↔ Undisturbed s a := by
  unfold Faithful Undisturbed
  cases a with
  | write =>
    cases hended : ended s .write with
    | none => exact ⟨fun _ => nofun, fun _ => nofun⟩
    | some r =>
      obtain ⟨hr, hend⟩ := ended_write.mp hended
      obtain ⟨hsound, hdistinct⟩ := h.round r hr
      have hbare := hsound.complete hend
      have hitems : SameItems r.updated r.items := fun x => by rw [hbare]
      rw [step_write hr hend]
      constructor
      · intro hgood r' hr'
        obtain rfl := Option.some.inj hr'
        exact hitems.symm.trans ((hgood rfl).1.trans h.same.symm)
      · intro hok _
        exact ⟨hitems.trans ((hok r rfl).trans h.same), distinct_of_bare hbare hdistinct⟩
  | op | read | readItem => exact ⟨fun _ => nofun, fun _ => nofun⟩

theorem Inv.step {s : State} (h : Inv s) {a : Step} (hok : Undisturbed s a) : Inv (step s a) := by
  cases hended : ended s a with
  | none => exact h.step_of_not_ended hended
  | some r =>
    have hfaithful := (h.faithful_iff a).mpr hok (by rw [hended]; rfl)
    refine ⟨hfaithful.1, hfaithful.2, ?_⟩
    cases a with
    | write =>
      obtain ⟨hr, hend⟩ := ended_write.mp hended
      rw [step_write hr hend]
      exact nofun
    | op | read | readItem => exact absurd hended nofun

/-! ## Whether an update is lost -/

/-- **What the updater loses.** In a run every end of a round leaves the items that the operations alone have
made, each with its own address, exactly if at every end of a round the list has the items that the round
read. -/
theorem updater_loses_nothing_iff (acts : List Step) :
    Along step Faithful State.init acts ↔ Along step Undisturbed State.init acts :=
  Along.iff_of_invariant Inv (fun _ a h => h.faithful_iff a) (fun _ _ h hok => h.step hok) acts inv_init

/-- An item that is added while the values of the others are read is gone at the end of the round. -/
theorem added_item_lost : ¬ ∀ acts, Along step Faithful State.init acts := by
  intro h
  have hlast := (h [.op (.addToWatchlist 0 "Int32" none), .read, .readItem "7",
    .op (.addToWatchlist 4 "Int32" none), .write]).2.2.2.2.1 rfl
  have hmem := (hlast.1 (bare ⟨"HexWatch_0x" ++ hexUpper 4, 4, "Int32", "??", false, "", none⟩)).mpr
    (by decide +kernel)
  revert hmem
  decide +kernel

end WatchlistManager

end Ps5Debugger
