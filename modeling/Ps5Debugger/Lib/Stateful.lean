import Mathlib.Data.List.Basic

/-!
# Programs over a state

`Triple P x Q` — started in a state with `P`, the program `x` ends in one with `Q` of its result. `Does` is
the form for a program that may give up: the state stands for a value of a model (`H m s`), and the program
takes it to the next value or leaves it standing for some value. `Flags` says that a bad result is never silent.
`allOf` runs steps until one gives up.
-/

namespace Lib

variable {σ μ α β ι : Type}

def Triple (P : σ → Prop) (x : StateM σ α) (Q : α → σ → Prop) : Prop := ∀ s, P s → Q (x s).1 (x s).2

theorem Triple.bind {P : σ → Prop} {x : StateM σ α} {R : α → σ → Prop} {f : α → StateM σ β} {Q : β → σ → Prop}
    (hx : Triple P x R) (hf : ∀ a, Triple (R a) (f a) Q) : Triple P (x >>= f) Q :=
  fun s hs => hf _ _ (hx s hs)

theorem Triple.of_exists {P : ι → σ → Prop} {x : StateM σ α} {Q : α → σ → Prop} (h : ∀ i, Triple (P i) x Q) :
    Triple (fun s => ∃ i, P i s) x Q := by
  rintro s ⟨i, hs⟩
  exact h i s hs

theorem Triple.of_and {p : Prop} {P : σ → Prop} {x : StateM σ α} {Q : α → σ → Prop} (h : p → Triple P x Q) :
    Triple (fun s => p ∧ P s) x Q :=
  fun s hs => h hs.1 s hs.2

/-- Steps that each say whether to go on. -/
def allOf (f : α → StateM σ Bool) : List α → StateM σ Bool
  | [] => pure true
  | x :: xs => do if ← f x then allOf f xs else return false

/-! ## Programs that give up -/

section Does

variable {H : μ → σ → Prop} {m m' m'' : μ}

/-- The program takes a state that stands for `m` to one for `m'`; where it gives up, the state stands for
something. -/
def Does (H : μ → σ → Prop) (m : μ) (x : StateM σ Bool) (m' : μ) : Prop :=
  Triple (H m) x fun ok s => if ok then H m' s else ∃ m'', H m'' s

theorem Does.gives_up : Does H m (pure false) m' := fun _ hs => ⟨m, hs⟩

/-- Giving up after something has been put in order. -/
theorem Does.gives_up_after {x : StateM σ Unit} (hx : Triple (H m) x fun _ => H m) :
    Does H m (do x; return false) m' :=
  Triple.bind hx fun _ => Does.gives_up

/-- A program goes on after a step that did not give up. -/
theorem Does.andThen {x y : StateM σ Bool} (hx : Does H m x m') (hy : Does H m' y m'') :
    Does H m (do if ← x then y else return false) m'' := by
  refine Triple.bind hx fun ok => ?_
  cases ok with
  | true => exact hy
  | false => exact fun _ hs => hs

theorem allOf_does {f : α → StateM σ Bool} {step : μ → α → μ} {xs : List α}
    (h : ∀ x ∈ xs, ∀ m, Does H m (f x) (step m x)) (m : μ) : Does H m (allOf f xs) (xs.foldl step m) := by
  induction xs generalizing m with
  | nil => exact fun _ hs => hs
  | cons x xs ih =>
    exact (h x List.mem_cons_self m).andThen (ih (fun y hy => h y (List.mem_cons_of_mem x hy)) (step m x))

end Does

/-! ## Bad results -/

section Flags

variable {flag : σ → Prop} {bad : α → Prop} {bad' : β → Prop}

/-- A bad result comes with the flag set, and the flag is not cleared. -/
def Flags (flag : σ → Prop) (bad : α → Prop) (x : StateM σ α) : Prop := ∀ s, flag s ∨ bad (x s).1 → flag (x s).2

theorem Flags.pure {a : α} (h : ¬ bad a) : Flags flag bad (Pure.pure a : StateM σ α) :=
  fun _ hs => hs.resolve_right h

theorem Flags.mono {bad₁ : α → Prop} {x : StateM σ α} (hx : Flags flag bad x) (h : ∀ a, bad₁ a → bad a) :
    Flags flag bad₁ x :=
  fun s hs => hx s (hs.imp_right (h _))

/-- What follows has to answer for its own result where the first result is not bad. -/
theorem Flags.bind {x : StateM σ α} {f : α → StateM σ β} (hx : Flags flag bad x)
    (hf : ∀ a, Flags flag (fun b => bad' b ∧ ¬ bad a) (f a)) : Flags flag bad' (x >>= f) := by
  intro s hs
  by_cases hbad : bad (x s).1
  · exact hf _ _ (.inl (hx s (.inr hbad)))
  · exact hf _ _ (hs.imp (fun hflag => hx s (.inl hflag)) fun hbad' => ⟨hbad', hbad⟩)

/-- A step that says whether to go on. -/
theorem Flags.andThen {x y : StateM σ Bool} (hx : Flags flag (· = false) x) (hy : Flags flag (· = false) y) :
    Flags flag (· = false) (do if ← x then y else return false) := by
  refine Flags.bind hx fun ok => ?_
  cases ok with
  | true => exact hy.mono fun _ h => h.1
  | false => exact Flags.pure fun h => h.2 rfl

theorem allOf_flags {f : α → StateM σ Bool} (h : ∀ x, Flags flag (· = false) (f x)) :
    ∀ xs, Flags flag (· = false) (allOf f xs)
  | [] => Flags.pure (by decide)
  | x :: xs => (h x).andThen (allOf_flags h xs)

end Flags

end Lib
