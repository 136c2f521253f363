import Mathlib.Data.List.DropRight
import Mathlib.Data.List.Infix
import Mathlib.Logic.Function.Basic
import Ps5Debugger.Lib.Machine
import Ps5Debugger.Lib.Text

/-!
# Frozen cheats

A cheat that is frozen has its writes in `frozenCheatWrites`, from where they go to the game again and again
(`CheatManager.kt`). Of the operations that change the profiles only the toggle of the freeze looks after that
map.

`frozen_cheats_shown_iff` says when every entry of the map is that of a frozen cheat in some profile: a cheat
that is replaced, or deleted, or gone with the profiles that are loaded, has no entry, or another frozen cheat
has the same.
-/

namespace Ps5Debugger

open Lib

/-! ## Cheats -/

structure CheatPatch where
  address : Int64
  hexOnValue : String := ""
  hexOffValue : Option String := none
  deriving DecidableEq

structure Cheat where
  id : String
  address : Int64 := 0
  hexOnValue : String := ""
  hexOffValue : Option String := none
  patches : List CheatPatch := []
  isEnabled : Bool := false
  isFrozen : Bool := false
  deriving DecidableEq

structure GameCheatProfile where
  titleId : String
  name : String
  version : String
  platform : Option String := none
  iconUrl : Option String := none
  cheats : List Cheat := []
  deriving DecidableEq

def Cheat.getEffectivePatches (cheat : Cheat) : List CheatPatch :=
  if cheat.patches ≠ [] then cheat.patches
  else if cheat.address ≠ 0 ∨ cheat.hexOnValue ≠ "" ∨ cheat.hexOffValue.getD "" ≠ "" then
    [⟨cheat.address, cheat.hexOnValue, cheat.hexOffValue⟩]
  else []

namespace CheatManager

/-! ## The bytes of a patch -/

/-- The class `[\s,\-]`. -/
def isSeparator (c : Char) : Bool := isRegexSpace c || c = ',' || c = '-'

/-- The tokens between separators, `token` being the one that has begun. -/
def split (token : List Char) : List Char → List (List Char)
  | [] => [token]
  | c :: cs => if isSeparator c then token :: split [] cs else split (token ++ [c]) cs

/-- `toInt(16).toByte()` of two characters, which throws if they are no number. -/
def hexByte (c c' : Char) : Option UInt8 := (toIntOrNull16 [c, c']).map UInt8.ofInt

/-- The bytes of `chunked(2)`. -/
def hexBytes : List Char → Option (List UInt8)
  | c :: c' :: cs => do return (← hexByte c c') :: (← hexBytes cs)
  | _ => some []

def parseToken (token : List Char) : Option (List UInt8) :=
  let t := removePrefix ['0', 'X'] (removePrefix ['0', 'x'] token)
  if t.length % 2 ≠ 0 then hexBytes ('0' :: t) else hexBytes t

/-- The bytes of a text, or none if the text is no number somewhere. -/
def parseHexBytes (hexStr : String) : Option (List UInt8) :=
  let clean := trim hexStr.toList
  let tokens := (split [] clean).filter fun token => !token.all isWhitespace
  (tokens.mapM parseToken).map List.flatten

/-- The writes of the ON values, as they are frozen. -/
def onWrites (cheat : Cheat) : List (Int64 × List UInt8) :=
  cheat.getEffectivePatches.filterMap fun patch =>
    if patch.hexOnValue.toList.all isWhitespace then none
    else
      match parseHexBytes patch.hexOnValue with
      | some bytes => if bytes ≠ [] then some (patch.address, bytes) else none
      | none => none

/-! ## The operations -/

structure State where
  gameProfiles : List GameCheatProfile
  frozenCheatWrites : String → Option (List (Int64 × List UInt8))

/-- The profile of a game, by its title and version, or else by its title. -/
def findProfile (profiles : List GameCheatProfile) (titleId version : String) : Option Nat :=
  (profiles.findIdx? fun p => p.titleId = titleId ∧ p.version = version).or
    (profiles.findIdx? fun p => p.titleId = titleId)

def isBadName (name : String) : Bool :=
  name = "" || name = "Unknown" ||
    let lower := name.toLower.toList
    decide ("eboot.bin".toList <:+: lower) || ".elf".toList.isSuffixOf lower || ".bin".toList.isSuffixOf lower ||
      ".prx".toList.isSuffixOf lower || ".sprx".toList.isSuffixOf lower

def selectBetterName (old new : String) : String := if isBadName new then old else new

/-- The cheats with this one in the place of that with its id, or behind them. -/
def putCheat (cheats : List Cheat) (cheat : Cheat) (newId : String) : List Cheat :=
  match cheats.findIdx? (·.id = cheat.id) with
  | some k => cheats.set k cheat
  | none => cheats ++ [{ cheat with id := if cheat.id = "" then newId else cheat.id }]

/-- `platform` is what is known of the game, and `newId` the id for a cheat that has none. -/
def addCheat (s : State) (titleId version : String) (cheat : Cheat) (gameName : String) (platform : Option String)
    (newId : String) : State :=
  let iconUrl := some ("/user/appmeta/" ++ titleId ++ "/icon0.png")
  match findProfile s.gameProfiles titleId version with
  | some i =>
    { s with gameProfiles := s.gameProfiles.modify i fun profile =>
        { profile with cheats := putCheat profile.cheats cheat newId
                       name := selectBetterName profile.name gameName, iconUrl, platform } }
  | none =>
    let name :=
      if gameName = "Unknown" ∨ "eboot.bin".toList <:+: gameName.toList then titleId else gameName
    { s with gameProfiles := s.gameProfiles ++
        [{ titleId, name, version, platform, iconUrl, cheats := putCheat [] cheat newId }] }

def deleteCheat (s : State) (titleId version cheatId : String) : State :=
  match s.gameProfiles.findIdx? fun p => p.titleId = titleId ∧ p.version = version with
  | some i =>
    match s.gameProfiles[i]? with
    | some profile =>
      let cheats := profile.cheats.filter (·.id ≠ cheatId)
      { s with gameProfiles :=
          if cheats = [] then s.gameProfiles.eraseIdx i else s.gameProfiles.set i { profile with cheats } }
    | none => s
  | none => s

/-- Where a cheat of this id is: its profile, and its place there. -/
structure Place (profiles : List GameCheatProfile) (cheatId : String) where
  pIdx : Nat
  profile : GameCheatProfile
  cIdx : Nat
  cheat : Cheat
  profile_eq : profiles[pIdx]? = some profile
  cheat_eq : profile.cheats[cIdx]? = some cheat
  id_eq : cheat.id = cheatId

/-- The first cheat of this id in a profile. -/
def findCheat (profiles : List GameCheatProfile) (cheatId : String) (pIdx : Nat) : Option (Place profiles cheatId) :=
  match hp : profiles[pIdx]? with
  | none => none
  | some profile =>
    match hc : profile.cheats.findIdx? (·.id = cheatId) with
    | none => none
    | some cIdx =>
      have hat := List.findIdx?_eq_some_iff_getElem.mp hc
      some ⟨pIdx, profile, cIdx, profile.cheats.get ⟨cIdx, hat.1⟩, hp, List.getElem?_eq_getElem hat.1,
        of_decide_eq_true hat.2.1⟩

/-- The profiles with another cheat there. -/
def Place.put {profiles : List GameCheatProfile} {cheatId : String} (place : Place profiles cheatId) (cheat : Cheat) :
    List GameCheatProfile :=
  profiles.set place.pIdx { place.profile with cheats := place.profile.cheats.set place.cIdx cheat }

/-- With the coroutine that it launches. -/
def toggleFreezeCheat (s : State) (titleId version cheatId : String) : State :=
  match (findProfile s.gameProfiles titleId version).bind (findCheat s.gameProfiles cheatId) with
  | some place =>
    let nowFrozen := !place.cheat.isFrozen
    let writes := onWrites place.cheat
    { gameProfiles := place.put { place.cheat with isFrozen := nowFrozen }
      frozenCheatWrites :=
        if nowFrozen then
          if writes ≠ [] then Function.update s.frozenCheatWrites cheatId (some writes) else s.frozenCheatWrites
        else Function.update s.frozenCheatWrites cheatId none }
  | none => s

def toggleCheat (s : State) (titleId version cheatId : String) : State :=
  match (s.gameProfiles.findIdx? fun p => p.titleId = titleId ∧ p.version = version).bind
      (findCheat s.gameProfiles cheatId) with
  | some place => { s with gameProfiles := place.put { place.cheat with isEnabled := !place.cheat.isEnabled } }
  | none => s

/-- The profiles are none if the text is not one of profiles. -/
def loadCheats (s : State) (profiles : Option (List GameCheatProfile)) : State :=
  match profiles with
  | some gameProfiles => { s with gameProfiles }
  | none => s

/-! ## The runs -/

inductive Step : Type where
  | addCheat (titleId version : String) (cheat : Cheat) (gameName : String) (platform : Option String) (newId : String)
  | deleteCheat (titleId version cheatId : String)
  | toggleFreezeCheat (titleId version cheatId : String)
  | toggleCheat (titleId version cheatId : String)
  | loadCheats (profiles : Option (List GameCheatProfile))

def step (s : State) : Step → State
  | .addCheat titleId version cheat gameName platform newId =>
    addCheat s titleId version cheat gameName platform newId
  | .deleteCheat titleId version cheatId => deleteCheat s titleId version cheatId
  | .toggleFreezeCheat titleId version cheatId => toggleFreezeCheat s titleId version cheatId
  | .toggleCheat titleId version cheatId => toggleCheat s titleId version cheatId
  | .loadCheats profiles => loadCheats s profiles

/-- The profiles of the storage, and nothing frozen. -/
def State.init (profiles : List GameCheatProfile) : State := ⟨profiles, fun _ => none⟩

/-! ## What is right -/

/-- The cheat is frozen and has this id and these writes. -/
def Writes (cheat : Cheat) (id : String) (writes : List (Int64 × List UInt8)) : Prop :=
  cheat.id = id ∧ cheat.isFrozen = true ∧ onWrites cheat = writes

/-- One of the cheats does. -/
def Shows (cheats : List Cheat) (id : String) (writes : List (Int64 × List UInt8)) : Prop :=
  ∃ cheat ∈ cheats, Writes cheat id writes

/-- Some profile has one. -/
def Shown (profiles : List GameCheatProfile) (id : String) (writes : List (Int64 × List UInt8)) : Prop :=
  ∃ profile ∈ profiles, Shows profile.cheats id writes

/-- What is written to the game is shown as frozen. -/
def AllShown (s : State) : Prop :=
  ∀ id writes, s.frozenCheatWrites id = some writes → Shown s.gameProfiles id writes

/-- If something is written to the game for a cheat that the operation replaces or deletes, the new cheat or
another one shows it as frozen, and profiles that are loaded show all of it. -/
def Kept (s : State) : Step → Prop
  | .addCheat titleId version cheat _ _ _ =>
    ∀ i profile k, findProfile s.gameProfiles titleId version = some i → s.gameProfiles[i]? = some profile →
      profile.cheats.findIdx? (·.id = cheat.id) = some k → ∀ writes, s.frozenCheatWrites cheat.id = some writes →
        Writes cheat cheat.id writes ∨
          Shown (s.gameProfiles.set i { profile with cheats := profile.cheats.eraseIdx k }) cheat.id writes
  | .deleteCheat titleId version cheatId =>
    ∀ i, (s.gameProfiles.findIdx? fun p => p.titleId = titleId ∧ p.version = version) = some i →
      ∀ writes, s.frozenCheatWrites cheatId = some writes → Shown (s.gameProfiles.eraseIdx i) cheatId writes
  | .loadCheats (some profiles) => ∀ id writes, s.frozenCheatWrites id = some writes → Shown profiles id writes
  | _ => True

/-! ## One place of a list -/

section Lists

variable {α : Type} {l : List α} {i : Nat} {a b : α} {p : α → Prop}

/-- What some element is, with another one at a place. -/
theorem exists_mem_set (h : l[i]? = some a) : (∃ x ∈ l.set i b, p x) ↔ p b ∨ ∃ x ∈ l.eraseIdx i, p x := by
  obtain ⟨hlt, -⟩ := List.getElem?_eq_some_iff.mp h
  rw [List.set_eq_take_append_cons_drop, if_pos hlt, List.eraseIdx_eq_take_drop_succ]
  simp only [List.mem_append, List.mem_cons, or_and_right, exists_or, exists_eq_left]
  exact or_left_comm

theorem exists_mem_at (h : l[i]? = some a) : (∃ x ∈ l, p x) ↔ p a ∨ ∃ x ∈ l.eraseIdx i, p x := by
  obtain ⟨hlt, hget⟩ := List.getElem?_eq_some_iff.mp h
  rw [← exists_mem_set h, ← hget, List.set_getElem_self]

theorem modify_eq_set_of (h : l[i]? = some a) (f : α → α) : l.modify i f = l.set i (f a) := by
  refine List.ext_getElem? fun j => ?_
  obtain ⟨hlt, hget⟩ := List.getElem?_eq_some_iff.mp h
  rw [List.getElem?_modify, List.getElem?_set]
  by_cases hij : i = j
  · subst hij
    simp [hlt, hget]
  · simp [hij]

end Lists

/-! ## The operations and what is shown -/

section Operations

variable {profiles : List GameCheatProfile} {id cheatId : String} {writes : List (Int64 × List UInt8)} {i : Nat}
  {profile profile' : GameCheatProfile}

theorem shown_set (hp : profiles[i]? = some profile) :
    Shown (profiles.set i profile') id writes ↔ Shows profile'.cheats id writes ∨
      Shown (profiles.eraseIdx i) id writes :=
  exists_mem_set hp

theorem shown_at (hp : profiles[i]? = some profile) :
    Shown profiles id writes ↔ Shows profile.cheats id writes ∨ Shown (profiles.eraseIdx i) id writes :=
  exists_mem_at hp

/-- The profiles without the cheat of a place. -/
def Place.rest (place : Place profiles cheatId) : List GameCheatProfile :=
  profiles.set place.pIdx { place.profile with cheats := place.profile.cheats.eraseIdx place.cIdx }

theorem Place.shown_put (place : Place profiles cheatId) {cheat : Cheat} :
    Shown (place.put cheat) id writes ↔ Writes cheat id writes ∨ Shown place.rest id writes := by
  rw [Place.put, Place.rest, shown_set place.profile_eq, shown_set place.profile_eq, Shows,
    exists_mem_set place.cheat_eq, or_assoc]
  rfl

theorem Place.shown (place : Place profiles cheatId) :
    Shown profiles id writes ↔ Writes place.cheat id writes ∨ Shown place.rest id writes := by
  rw [Place.rest, shown_set place.profile_eq, shown_at place.profile_eq, Shows, exists_mem_at place.cheat_eq, or_assoc]
  rfl

/-- Freezing and unfreezing keeps the map and the profiles together. -/
theorem allShown_toggleFreezeCheat {s : State} (h : AllShown s) (titleId version cheatId : String) :
    AllShown (toggleFreezeCheat s titleId version cheatId) := by
  unfold toggleFreezeCheat
  split
  · rename_i place hplace
    -- what was shown without the cheat that changes
    have hrest : ∀ id writes, s.frozenCheatWrites id = some writes → ¬ Writes place.cheat id writes →
        Shown (place.put { place.cheat with isFrozen := !place.cheat.isFrozen }) id writes := fun id writes hw hno =>
      place.shown_put.mpr (.inr ((place.shown.mp (h id writes hw)).resolve_left hno))
    intro id writes hw
    simp only at hw
    split at hw
    · rename_i hnow
      have hfrozen : place.cheat.isFrozen = false := by simpa using hnow
      have hno : ∀ writes, ¬ Writes place.cheat id writes := fun writes hwrites =>
        absurd (hfrozen.symm.trans hwrites.2.1) nofun
      split at hw
      · by_cases hid : id = cheatId
        · subst hid
          rw [Function.update_self] at hw
          exact place.shown_put.mpr (.inl ⟨place.id_eq, hnow, Option.some.inj hw⟩)
        · rw [Function.update_of_ne hid] at hw
          exact hrest id writes hw (hno writes)
      · exact hrest id writes hw (hno writes)
    · by_cases hid : id = cheatId
      · subst hid
        rw [Function.update_self] at hw
        exact absurd hw nofun
      · rw [Function.update_of_ne hid] at hw
        exact hrest id writes hw fun hwrites => hid (hwrites.1.symm.trans place.id_eq)
  · exact h

/-- Turning a cheat on or off changes nothing that is frozen. -/
theorem allShown_toggleCheat {s : State} (h : AllShown s) (titleId version cheatId : String) :
    AllShown (toggleCheat s titleId version cheatId) := by
  unfold toggleCheat
  split
  · rename_i place hplace
    intro id writes hw
    exact place.shown_put.mpr (place.shown.mp (h id writes hw))
  · exact h

/-- What is shown after a deletion. -/
theorem shown_deleted (hp : profiles[i]? = some profile) :
    Shown (if profile.cheats.filter (·.id ≠ cheatId) = [] then profiles.eraseIdx i
        else profiles.set i { profile with cheats := profile.cheats.filter (·.id ≠ cheatId) }) id writes ↔
      (id ≠ cheatId ∧ Shows profile.cheats id writes) ∨ Shown (profiles.eraseIdx i) id writes := by
  have hfilter : Shows (profile.cheats.filter (·.id ≠ cheatId)) id writes ↔
      id ≠ cheatId ∧ Shows profile.cheats id writes := by
    simp only [Shows, List.mem_filter, decide_eq_true_eq]
    constructor
    · rintro ⟨cheat, ⟨hmem, hne⟩, hwrites⟩
      exact ⟨hwrites.1 ▸ hne, cheat, hmem, hwrites⟩
    · rintro ⟨hne, cheat, hmem, hwrites⟩
      exact ⟨cheat, ⟨hmem, hwrites.1 ▸ hne⟩, hwrites⟩
  rw [← hfilter]
  split
  · rename_i hempty
    rw [hempty]
    exact (or_iff_right fun ⟨_, hmem, _⟩ => absurd hmem List.not_mem_nil).symm
  · exact shown_set hp

theorem allShown_deleteCheat_iff {s : State} (h : AllShown s) (titleId version cheatId : String) :
    AllShown (deleteCheat s titleId version cheatId) ↔ Kept s (.deleteCheat titleId version cheatId) := by
  simp only [deleteCheat, Kept]
  cases hi : s.gameProfiles.findIdx? fun p => p.titleId = titleId ∧ p.version = version with
  | none => exact iff_of_true h fun _ hsome => absurd hsome nofun
  | some i =>
    obtain ⟨hlt, -⟩ := List.findIdx?_eq_some_iff_getElem.mp hi
    have hp := List.getElem?_eq_getElem hlt
    simp only [hp]
    constructor
    · rintro hall _ ⟨⟩ writes hw
      exact ((shown_deleted hp).mp (hall cheatId writes hw)).resolve_left fun hne => hne.1 rfl
    · intro hkept id writes hw
      refine (shown_deleted hp).mpr ?_
      by_cases hid : id = cheatId
      · subst hid
        exact .inr (hkept i rfl writes hw)
      · exact ((shown_at hp).mp (h id writes hw)).imp_left fun hshows => ⟨hid, hshows⟩

/-- A profile is found where there is one. -/
theorem lt_of_findProfile {titleId version : String} (h : findProfile profiles titleId version = some i) :
    i < profiles.length := by
  rcases Option.or_eq_some_iff.mp h with hboth | ⟨-, htitle⟩
  · exact (List.findIdx?_eq_some_iff_getElem.mp hboth).1
  · exact (List.findIdx?_eq_some_iff_getElem.mp htitle).1

theorem allShown_addCheat_iff {s : State} (h : AllShown s) (titleId version : String) (cheat : Cheat)
    (gameName : String) (platform : Option String) (newId : String) :
    AllShown (addCheat s titleId version cheat gameName platform newId) ↔
      Kept s (.addCheat titleId version cheat gameName platform newId) := by
  simp only [addCheat, Kept]
  cases hi : findProfile s.gameProfiles titleId version with
  | none =>
    refine iff_of_true (fun id writes hw => ?_) fun _ _ _ hsome => absurd hsome nofun
    obtain ⟨profile, hmem, hshows⟩ := h id writes hw
    exact ⟨profile, List.mem_append_left _ hmem, hshows⟩
  | some i =>
    have hlt := lt_of_findProfile hi
    have hp := List.getElem?_eq_getElem hlt
    simp only [modify_eq_set_of hp]
    cases hk : s.gameProfiles[i].cheats.findIdx? (·.id = cheat.id) with
    | none =>
      refine iff_of_true (fun id writes hw => (shown_set hp).mpr ?_) ?_
      · refine ((shown_at hp).mp (h id writes hw)).imp_left ?_
        rintro ⟨old, hmem, hwrites⟩
        refine ⟨old, ?_, hwrites⟩
        simp only [putCheat, hk]
        exact List.mem_append_left _ hmem
      · rintro _ _ k ⟨⟩ hp' hk'
        obtain rfl := Option.some.inj (hp.symm.trans hp')
        exact absurd (hk.symm.trans hk') nofun
    | some k =>
      obtain ⟨hklt, hkid, -⟩ := List.findIdx?_eq_some_iff_getElem.mp hk
      have hc := List.getElem?_eq_getElem hklt
      have hput : putCheat s.gameProfiles[i].cheats cheat newId = s.gameProfiles[i].cheats.set k cheat := by
        simp only [putCheat, hk]
      -- one cheat takes the place of the other, and the rest is the same
      have hnew : ∀ (profile : GameCheatProfile) (id : String) writes,
          profile.cheats = s.gameProfiles[i].cheats.set k cheat →
          (Shown (s.gameProfiles.set i profile) id writes ↔ Writes cheat id writes ∨
            Shown (s.gameProfiles.set i { s.gameProfiles[i] with cheats := s.gameProfiles[i].cheats.eraseIdx k }) id
              writes) := fun profile id writes hcheats => by
        rw [shown_set hp, shown_set hp, hcheats, Shows, exists_mem_set hc, or_assoc]
        rfl
      constructor
      · rintro hall _ _ _ ⟨⟩ hp' hk' writes hw
        obtain rfl := Option.some.inj (hp.symm.trans hp')
        obtain rfl := Option.some.inj (hk.symm.trans hk')
        exact (hnew _ _ _ hput).mp (hall cheat.id writes hw)
      · intro hkept id writes hw
        refine (hnew _ _ _ hput).mpr ?_
        by_cases hid : id = cheat.id
        · subst hid
          exact hkept i _ k rfl hp hk writes hw
        · refine .inr (((shown_at hp).mp (h id writes hw)).elim (fun hshows => ?_) fun hrest => ?_)
          · obtain hold | hrest := (exists_mem_at hc).mp hshows
            · exact absurd (hold.1.symm.trans (of_decide_eq_true hkid)) hid
            · exact (shown_set hp).mpr (.inl hrest)
          · exact (shown_set hp).mpr (.inr hrest)

end Operations

/-! ## Whether what is frozen is shown -/

/-- **Frozen cheats.** In a run every entry of the map is always that of a frozen cheat in some profile, with
the writes of its ON values, exactly if every replacement, deletion and load leaves one for each entry that
it concerns. -/
theorem frozen_cheats_shown_iff (profiles : List GameCheatProfile) (acts : List Step) :
    Along step (fun s a => AllShown (step s a)) (State.init profiles) acts ↔
      Along step Kept (State.init profiles) acts := by
  have hiff : ∀ s a, AllShown s → (AllShown (step s a) ↔ Kept s a) := fun s a h => by
    cases a with
    | addCheat titleId version cheat gameName platform newId =>
      exact allShown_addCheat_iff h titleId version cheat gameName platform newId
    | deleteCheat titleId version cheatId => exact allShown_deleteCheat_iff h titleId version cheatId
    | toggleFreezeCheat titleId version cheatId =>
      exact iff_of_true (allShown_toggleFreezeCheat h titleId version cheatId) trivial
    | toggleCheat titleId version cheatId => exact iff_of_true (allShown_toggleCheat h titleId version cheatId) trivial
    | loadCheats profiles =>
      cases profiles with
      | none => exact iff_of_true h trivial
      | some profiles => exact Iff.rfl
  exact Along.iff_of_invariant AllShown hiff (fun s a h => (hiff s a h).mpr) acts nofun

/-- A frozen cheat is deleted, and goes on being written. -/
theorem deleted_cheat_written :
    ¬ ∀ profiles acts, Along step (fun s a => AllShown (step s a)) (State.init profiles) acts := by
  intro h
  have hlast := (h [⟨"CUSA00001", "Game", "1.00", none, none, [⟨"c1", 4096, "90", none, [], false, false⟩]⟩]
    [.toggleFreezeCheat "CUSA00001" "1.00" "c1", .deleteCheat "CUSA00001" "1.00" "c1"]).2.1
  obtain ⟨profile, hmem, -⟩ := hlast "c1" [(4096, [0x90])] (by decide +kernel)
  have hempty : (step (step (State.init [⟨"CUSA00001", "Game", "1.00", none, none,
      [⟨"c1", 4096, "90", none, [], false, false⟩]⟩]) (.toggleFreezeCheat "CUSA00001" "1.00" "c1"))
      (.deleteCheat "CUSA00001" "1.00" "c1")).gameProfiles = [] := by decide +kernel
  rw [hempty] at hmem
  exact absurd hmem List.not_mem_nil

end CheatManager

end Ps5Debugger
