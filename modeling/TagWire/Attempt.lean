/-! Steps that may fail. A failed step keeps the state it reached, so what a broken read or write
has already moved stays moved. -/
namespace TagWire

/-- A step on a state `σ` that ends in a value or an error. -/
def Attempt (ε σ α : Type) : Type := σ → Except ε α × σ

namespace Attempt

variable {ε σ τ α β : Type}

def fail (e : ε) : Attempt ε σ α := fun s => (.error e, s)

def lift (outcome : Except ε α) : Attempt ε σ α := fun s => (outcome, s)

def view (f : σ → α) : Attempt ε σ α := fun s => (.ok (f s), s)

def update (f : σ → σ) : Attempt ε σ Unit := fun s => (.ok (), f s)

instance : Monad (Attempt ε σ) where
  pure a := fun s => (.ok a, s)
  bind x f := fun s => match x s with
    | (.ok a, s') => f a s'
    | (.error e, s') => (.error e, s')

theorem pure_apply (a : α) (s : σ) : (pure a : Attempt ε σ α) s = (.ok a, s) := rfl

theorem bind_apply (x : Attempt ε σ α) (f : α → Attempt ε σ β) (s : σ) :
    (x >>= f) s = match x s with
      | (.ok a, s') => f a s'
      | (.error e, s') => (.error e, s') := rfl

theorem bind_ok {x : Attempt ε σ α} {f : α → Attempt ε σ β} {s s' : σ} {a : α}
    (h : x s = (.ok a, s')) : (x >>= f) s = f a s' := by
  rw [bind_apply, h]

theorem bind_error {x : Attempt ε σ α} {f : α → Attempt ε σ β} {s s' : σ} {e : ε}
    (h : x s = (.error e, s')) : (x >>= f) s = (.error e, s') := by
  rw [bind_apply, h]

instance : LawfulMonad (Attempt ε σ) := by
  refine LawfulMonad.mk' _ ?_ ?_ ?_
  · intro α x
    funext s
    rcases h : x s with ⟨_ | _, _⟩
    · exact bind_error h
    · exact bind_ok h
  · intro α β a f
    rfl
  · intro α β γ x f g
    funext s
    rcases h : x s with ⟨_ | _, s'⟩
    · rw [bind_error (bind_error h), bind_error h]
    · rw [bind_ok h]
      exact congrArg (fun r : Except ε β × σ => match r with
        | (.ok b, s') => g b s'
        | (.error e, s') => (.error e, s')) (bind_ok h)

def mapError (f : ε → β) (x : Attempt ε σ α) : Attempt β σ α := fun s =>
  match x s with
  | (.ok a, s') => (.ok a, s')
  | (.error e, s') => (.error (f e), s')

/-- A step on one part of a larger state. -/
def within (part : σ → τ) (replace : σ → τ → σ) (x : Attempt ε τ α) : Attempt ε σ α := fun s =>
  let r := x (part s)
  (r.1, replace s r.2)

def collect (x : Attempt ε σ α) : Nat → Array α → σ → Except ε (Array α) × σ
  | 0, done, s => (.ok done, s)
  | count + 1, done, s => match x s with
    | (.ok a, s') => collect x count (done.push a) s'
    | (.error e, s') => (.error e, s')

def forEach (f : α → Attempt ε σ Unit) : List α → σ → Except ε Unit × σ
  | [], s => (.ok (), s)
  | a :: as, s => match f a s with
    | (.ok (), s') => forEach f as s'
    | (.error e, s') => (.error e, s')

theorem collect_succ (x : Attempt ε σ α) (count : Nat) (done : Array α) :
    (collect x (count + 1) done : Attempt ε σ (Array α)) =
      x >>= fun a => collect x count (done.push a) := by
  funext s
  simp only [collect, bind]

theorem forEach_cons (f : α → Attempt ε σ Unit) (a : α) (as : List α) :
    (forEach f (a :: as) : Attempt ε σ Unit) = f a >>= fun _ => forEach f as := by
  funext s
  simp only [forEach, bind]
  rcases f a s with ⟨_ | _, _⟩ <;> rfl

theorem forEach_map (f : α → Attempt ε σ Unit) (g : β → α) (bs : List β) :
    (forEach f (bs.map g) : Attempt ε σ Unit) = forEach (fun b => f (g b)) bs := by
  induction bs with
  | nil => rfl
  | cons b bs ih => rw [List.map_cons, forEach_cons, forEach_cons, ih]

end Attempt

/-- A step that overwrites a value it is given; after a failure the value may be half written. -/
def InPlace (ε σ β α : Type) : Type := α → σ → (Except ε β × α) × σ

namespace InPlace

variable {ε σ τ α β γ : Type}

/-- Puts the value of a step in place; a failure leaves the old value. -/
def assign (x : Attempt ε σ α) : InPlace ε σ Unit α := fun old s =>
  match x s with
  | (.ok a, s') => ((.ok (), a), s')
  | (.error e, s') => ((.error e, old), s')

def produce (x : InPlace ε σ β α) (start : α) : Attempt ε σ α := fun s =>
  match x start s with
  | ((.ok _, a), s') => (.ok a, s')
  | ((.error e, _), s') => (.error e, s')

def within (part : σ → τ) (replace : σ → τ → σ) (x : InPlace ε τ β α) : InPlace ε σ β α :=
  fun a s =>
    let r := x a (part s)
    (r.1, replace s r.2)

def through (view : γ → α) (rebuild : γ → α → γ) (x : InPlace ε σ β α) : InPlace ε σ β γ :=
  fun c s =>
    let r := x (view c) s
    ((r.1.1, rebuild c r.1.2), r.2)

theorem produce_assign (x : Attempt ε σ α) (a : α) : produce (assign x) a = x := by
  funext s
  simp only [produce, assign]
  rcases x s with ⟨_ | _, _⟩ <;> rfl

end InPlace

end TagWire
