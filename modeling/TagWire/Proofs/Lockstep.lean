import Mathlib.Data.List.Forall2
import Mathlib.Data.Set.Basic
import TagWire.Error

/-! Two runs side by side. From states that look alike they end alike: with values that correspond,
or with one error, up to the operation that a broken stream names. Errors that either run is excused
for are set aside, for runs that do not spend the same number of levels. -/
namespace TagWire

/-- How two outcomes agree. Where `broken` holds, two failures of a stream may name the operation
differently, but not the position or the cause. -/
inductive Accord {α β : Type} (broken : Prop) (R : α → β → Prop) :
    Except Error α → Except Error β → Prop
  | ok {a : α} {b : β} (h : R a b) : Accord broken R (.ok a) (.ok b)
  | error (e : Error) : Accord broken R (.error e) (.error e)
  | io (op op' : String) (offset : Nat) (cause : Cause) (h : broken) :
    Accord broken R (.error (.io op offset cause)) (.error (.io op' offset cause))

namespace Accord

variable {α β γ δ : Type} {broken broken' : Prop} {R : α → β → Prop} {R' : γ → δ → Prop}

theorem refl {R : α → α → Prop} (h : ∀ a, R a a) (x : Except Error α) : Accord broken R x x := by
  cases x with
  | error e => exact .error e
  | ok a => exact .ok (h a)

theorem symm {x y : Except Error α} (h : Accord broken Eq x y) : Accord broken Eq y x := by
  cases h with
  | ok h => exact .ok h.symm
  | error e => exact .error e
  | io op op' offset cause h => exact .io op' op offset cause h

theorem trans {x : Except Error α} {y : Except Error β} {z : Except Error γ} {R' : β → γ → Prop}
    {R'' : α → γ → Prop} (h : Accord broken R x y) (h' : Accord broken R' y z)
    (hR : ∀ a b c, R a b → R' b c → R'' a c) : Accord broken R'' x z := by
  cases h with
  | ok h =>
    cases h' with
    | ok h' => exact .ok (hR _ _ _ h h')
  | error e =>
    cases h' with
    | error => exact .error e
    | io op op' offset cause h => exact .io op op' offset cause h
  | io op op' offset cause h =>
    cases h' with
    | error => exact .io op op' offset cause h
    | io _ op'' _ _ _ => exact .io op op'' offset cause h

theorem of_ok {y : Except Error β} {a : α} (h : Accord broken R (.ok a) y) :
    ∃ b, y = .ok b ∧ R a b := by
  cases h with
  | ok h => exact ⟨_, rfl, h⟩

theorem map {x : Except Error α} {y : Except Error β} {f : α → γ} {g : β → δ}
    (h : Accord broken R x y) (hf : ∀ a b, R a b → R' (f a) (g b)) :
    Accord broken R' (x.map f) (y.map g) := by
  cases h with
  | ok h => exact .ok (hf _ _ h)
  | error e => exact .error e
  | io op op' offset cause h => exact .io op op' offset cause h

theorem mapM {f : γ → Except Error α} {g : δ → Except Error β} {xs : List γ} {ys : List δ}
    (h : List.Forall₂ (fun x y => Accord False R (f x) (g y)) xs ys) :
    Accord False (List.Forall₂ R) (xs.mapM f) (ys.mapM g) := by
  induction h with
  | nil => exact .ok .nil
  | @cons x y xs ys hxy _ ih =>
    rw [List.mapM_cons, List.mapM_cons]
    revert hxy
    generalize f x = fx
    generalize g y = gy
    rintro (hab | e | ⟨_, _, _, _, h⟩)
    · exact ih.map fun _ _ => List.Forall₂.cons hab
    · exact .error e
    · exact h.elim

end Accord

/-- Which part of their states two runs have in common, and when that is broken. -/
structure Terms (σ τ : Type) where
  view : σ → τ
  broken : τ → Prop

variable {σ τ α β γ δ : Type} {T : Terms σ τ} {P P' Q Q' : Set Error} {R : α → β → Prop}
  {R' : γ → δ → Prop}

/-- From states that look alike both runs end alike, unless the first ends in `P` or the second in
`Q`. -/
def Lockstep (T : Terms σ τ) (P Q : Set Error) (R : α → β → Prop) (x : Attempt Error σ α)
    (y : Attempt Error σ β) : Prop :=
  ∀ s u, T.view s = T.view u →
    (∃ e ∈ P, (x s).1 = .error e) ∨ (∃ e ∈ Q, (y u).1 = .error e) ∨
      Accord (T.broken (T.view (x s).2)) R (x s).1 (y u).1 ∧ T.view (x s).2 = T.view (y u).2

namespace Lockstep

variable {x : Attempt Error σ α} {y : Attempt Error σ β}

theorem mono (h : Lockstep T P Q R x y) (hP : P ⊆ P') (hQ : Q ⊆ Q') : Lockstep T P' Q' R x y := by
  intro s u hs
  rcases h s u hs with ⟨e, he, hx⟩ | ⟨e, he, hy⟩ | h
  · exact .inl ⟨e, hP he, hx⟩
  · exact .inr (.inl ⟨e, hQ he, hy⟩)
  · exact .inr (.inr h)

theorem symm {y : Attempt Error σ α} (h : Lockstep T P Q Eq x y) : Lockstep T Q P Eq y x := by
  intro s u hs
  rcases h u s hs.symm with hx | hy | ⟨ha, hv⟩
  · exact .inr (.inl hx)
  · exact .inl hy
  · exact .inr (.inr ⟨hv ▸ ha.symm, hv.symm⟩)

theorem trans {z : Attempt Error σ γ} {R' : β → γ → Prop} {R'' : α → γ → Prop}
    (h : Lockstep T P ∅ R x y) (h' : Lockstep T ∅ Q R' y z)
    (hR : ∀ a b c, R a b → R' b c → R'' a c) : Lockstep T P Q R'' x z := by
  intro s u hs
  -- The run in between starts from the same state as the first.
  rcases h s s rfl with hx | ⟨e, he, -⟩ | ⟨ha, hv⟩
  · exact .inl hx
  · exact he.elim
  · rcases h' s u hs with ⟨e, he, -⟩ | hy | ⟨ha', hv'⟩
    · exact he.elim
    · exact .inr (.inl hy)
    · exact .inr (.inr ⟨ha.trans (hv ▸ ha') hR, hv.trans hv'⟩)

theorem of_alike {x : Attempt Error σ α} {y : Attempt Error σ β}
    (h : ∀ s u, T.view s = T.view u →
      Accord (T.broken (T.view (x s).2)) R (x s).1 (y u).1 ∧ T.view (x s).2 = T.view (y u).2) :
    Lockstep T P Q R x y := fun s u hs => .inr (.inr (h s u hs))

theorem excused {e : Error} (he : e ∈ P) (y : Attempt Error σ β) :
    Lockstep T P Q R (.fail e) y := fun _ _ _ => .inl ⟨e, he, rfl⟩

theorem pure {a : α} {b : β} (h : R a b) : Lockstep T P Q R (pure a) (pure b) :=
  of_alike fun _ _ hs => ⟨.ok h, hs⟩

theorem fail (e : Error) : Lockstep T P Q R (.fail e) (.fail e) :=
  of_alike fun _ _ hs => ⟨.error e, hs⟩

theorem lift {a : Except Error α} {b : Except Error β} (h : Accord False R a b) :
    Lockstep T P Q R (.lift a) (.lift b) := by
  refine of_alike fun s u hs => ⟨?_, hs⟩
  cases h with
  | ok h => exact .ok h
  | error e => exact .error e
  | io _ _ _ _ h => exact h.elim

theorem update {f g : σ → σ} (hf : ∀ s, T.view (f s) = T.view s)
    (hg : ∀ s, T.view (g s) = T.view s) :
    Lockstep T P Q Eq (Attempt.update f) (Attempt.update g) :=
  of_alike fun s u hs => ⟨.ok rfl, (hf s).trans (hs.trans (hg u).symm)⟩

theorem bind {f : α → Attempt Error σ γ} {g : β → Attempt Error σ δ} (h : Lockstep T P Q R x y)
    (hf : ∀ a b, R a b → Lockstep T P Q R' (f a) (g b)) :
    Lockstep T P Q R' (x >>= f) (y >>= g) := by
  intro s u hs
  have hxy := h s u hs
  rw [Attempt.bind_apply, Attempt.bind_apply]
  revert hxy
  rcases x s with ⟨a, s'⟩
  rcases y u with ⟨b, u'⟩
  rintro (⟨e, he, rfl⟩ | ⟨e, he, rfl⟩ | ⟨ha, hv⟩)
  · exact .inl ⟨e, he, rfl⟩
  · exact .inr (.inl ⟨e, he, rfl⟩)
  · cases ha with
    | ok hab => exact hf _ _ hab s' u' hv
    | error e => exact .inr (.inr ⟨.error e, hv⟩)
    | io op op' offset cause h => exact .inr (.inr ⟨.io op op' offset cause h, hv⟩)

theorem map {f : α → γ} {g : β → δ} (h : Lockstep T P Q R x y)
    (hf : ∀ a b, R a b → R' (f a) (g b)) : Lockstep T P Q R' (f <$> x) (g <$> y) :=
  h.bind fun a b hab => Lockstep.pure (hf a b hab)

theorem forEach {f : γ → Attempt Error σ Unit} {g : δ → Attempt Error σ Unit} {cs : List γ}
    {ds : List δ} (h : List.Forall₂ R' cs ds)
    (hf : ∀ c d, R' c d → Lockstep T P Q Eq (f c) (g d)) :
    Lockstep T P Q Eq (Attempt.forEach f cs) (Attempt.forEach g ds) := by
  induction h with
  | nil => exact Lockstep.pure rfl
  | cons hcd _ ih =>
    rw [Attempt.forEach_cons, Attempt.forEach_cons]
    exact (hf _ _ hcd).bind fun _ _ _ => ih

theorem collect {g : α → β} (h : Lockstep T P Q (fun a b => b = g a) x y) (count : Nat)
    (done : Array α) :
    Lockstep T P Q (fun as bs => bs = as.map g) (Attempt.collect x count done)
      (Attempt.collect y count (done.map g)) := by
  induction count generalizing done with
  | zero => exact Lockstep.pure rfl
  | succ count ih =>
    rw [Attempt.collect_succ, Attempt.collect_succ]
    refine h.bind fun a b hab => ?_
    subst hab
    rw [← Array.map_push]
    exact ih (done.push a)

theorem same {broken : σ → Prop} (x : Attempt Error σ α) : Lockstep ⟨id, broken⟩ P Q Eq x x := by
  refine of_alike fun s u hs => ?_
  obtain rfl : s = u := hs
  exact ⟨.refl (fun _ => rfl) _, rfl⟩

theorem within {ω : Type} {broken : τ → Prop} {replace : ω → τ → ω} {part : ω → τ}
    {x : Attempt Error τ α} {y : Attempt Error τ β} (hr : ∀ s r, part (replace s r) = r)
    (h : Lockstep ⟨id, broken⟩ P Q R x y) :
    Lockstep ⟨part, broken⟩ P Q R (x.within part replace) (y.within part replace) := by
  intro s u hs
  simp only [Attempt.within, hr]
  exact h (part s) (part u) hs

end Lockstep

end TagWire
