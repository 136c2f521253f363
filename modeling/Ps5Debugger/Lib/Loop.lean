import Mathlib.Data.Sum.Basic

/-!
# Loops that may not end

A loop body takes a state to the next state, or leaves the loop with a result. `loop` runs it with
fuel, `Halts` says that some fuel is enough, and `Leaves` that it is and what the result is like. The rules
are the two ways one pass can go, and `not_halts` for a loop that can always go on.
-/

namespace Lib

variable {σ ρ : Type} {body : σ → σ ⊕ ρ} {s s' : σ}

/-- At most the given number of passes. -/
def loop (body : σ → σ ⊕ ρ) : Nat → σ → Option ρ
  | 0, _ => none
  | fuel + 1, s =>
    match body s with
    | .inl s' => loop body fuel s'
    | .inr r => some r

theorem loop_next {fuel : Nat} (h : body s = .inl s') : loop body (fuel + 1) s = loop body fuel s' := by
  simp only [loop, h]

theorem loop_leave {fuel : Nat} {r : ρ} (h : body s = .inr r) : loop body (fuel + 1) s = some r := by
  simp only [loop, h]

/-- More fuel makes no difference. -/
theorem loop_unique : ∀ {fuel fuel' : Nat} {s : σ} {r r' : ρ}, loop body fuel s = some r →
    loop body fuel' s = some r' → r = r'
  | 0, _, _, _, _, h, _ => by cases h
  | _ + 1, 0, _, _, _, _, h' => by cases h'
  | fuel + 1, fuel' + 1, s, r, r', h, h' => by
    cases hb : body s with
    | inl next =>
      rw [loop_next hb] at h h'
      exact loop_unique h h'
    | inr result =>
      rw [loop_leave hb] at h h'
      exact (Option.some.inj h).symm.trans (Option.some.inj h')

def Halts (body : σ → σ ⊕ ρ) (s : σ) : Prop := ∃ fuel, (loop body fuel s).isSome = true

/-- A loop in a state from which it always goes on to another such state does not end. -/
theorem not_halts (Inv : σ → Prop) (hgo : ∀ s, Inv s → ∃ s', body s = .inl s' ∧ Inv s') (hs : Inv s) :
    ¬ Halts body s := by
  have hnone : ∀ fuel s, Inv s → loop body fuel s = none := by
    intro fuel
    induction fuel with
    | zero => intro s _; rfl
    | succ fuel ih =>
      intro s hs
      obtain ⟨s', hb, hs'⟩ := hgo s hs
      rw [loop_next hb]
      exact ih s' hs'
  rintro ⟨fuel, hf⟩
  rw [hnone fuel s hs] at hf
  cases hf

/-- The loop ends with a result that is `ok`. -/
def Leaves (body : σ → σ ⊕ ρ) (ok : ρ → Prop) (s : σ) : Prop := ∃ fuel, ∃ r ∈ loop body fuel s, ok r

variable {ok : ρ → Prop}

theorem Leaves.halts (h : Leaves body ok s) : Halts body s := by
  obtain ⟨fuel, r, hr, -⟩ := h
  refine ⟨fuel, ?_⟩
  rw [Option.mem_def.mp hr]
  rfl

theorem leaves_iff_leave {r : ρ} (h : body s = .inr r) : Leaves body ok s ↔ ok r := by
  constructor
  · rintro ⟨fuel, r', hr', hok⟩
    rwa [loop_unique (@loop_leave _ _ _ _ 0 _ h) hr']
  · intro hok
    exact ⟨1, r, loop_leave h, hok⟩

theorem leaves_iff_next (h : body s = .inl s') : Leaves body ok s ↔ Leaves body ok s' := by
  constructor
  · rintro ⟨fuel, r, hr, hok⟩
    cases fuel with
    | zero => cases hr
    | succ fuel => exact ⟨fuel, r, (loop_next h).symm.trans hr, hok⟩
  · rintro ⟨fuel, r, hr, hok⟩
    exact ⟨fuel + 1, r, (loop_next h).trans hr, hok⟩

end Lib
