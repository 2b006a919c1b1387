import TagWire.Error

/-! Two runs, the second of which follows the first: from states that correspond it ends as the
first does, but for a change of the errors, and in states that correspond again. What the states
have to do with each other is left open; the second may keep a counter beside the state of the
first. -/
namespace TagWire

variable {σ τ σ' τ' ε α β γ δ : Type} {R : σ → τ → Prop} {R' : σ' → τ' → Prop} {φ : γ → δ}
  {h : ε → ε}

/-- From states that correspond, the second step has the outcome of the first under `φ`, and the
states correspond when both are done. -/
def Follows (R : σ → τ → Prop) (φ : γ → δ) (x : σ → γ × σ) (y : τ → δ × τ) : Prop :=
  ∀ s u, R s u → (y u).1 = φ (x s).1 ∧ R (x s).2 (y u).2

def InPlace.onError (h : ε → ε) : Except ε β × α → Except ε β × α := Prod.map (Except.mapError h) id

namespace Follows

theorem mapError_id (result : Except ε α) : result.mapError id = result := by
  cases result <;> rfl

theorem onError_id (result : Except ε β × α) : InPlace.onError id result = result :=
  Prod.ext (mapError_id _) rfl

theorem run {x : σ → γ × σ} {y : τ → δ × τ} (hxy : Follows R φ x y) {s : σ} {u : τ} (hs : R s u) :
    ∃ u', y u = (φ (x s).1, u') ∧ R (x s).2 u' := by
  obtain ⟨h₁, h₂⟩ := hxy s u hs
  exact ⟨(y u).2, Prod.ext h₁ rfl, h₂⟩

theorem same {φ : γ → γ} (hφ : ∀ c, φ c = c) {x : σ → γ × σ} : Follows Eq φ x x := by
  rintro s _ rfl
  exact ⟨(hφ _).symm, rfl⟩

section Attempts

variable {x : Attempt ε σ α} {y : Attempt ε τ α}

theorem lift {result : Except ε α} (hr : ∀ e, result = .error e → h e = e) :
    Follows R (Except.mapError h) (Attempt.lift result) (Attempt.lift result) := by
  intro s u hs
  refine ⟨?_, hs⟩
  cases result with
  | error e => exact congrArg Except.error (hr e rfl).symm
  | ok a => rfl

theorem pure (a : α) : Follows R (Except.mapError h) (pure a : Attempt ε σ α)
    (pure a : Attempt ε τ α) := fun _ _ hs => ⟨rfl, hs⟩

theorem fail {e e' : ε} (he : h e = e') :
    Follows R (Except.mapError h) (Attempt.fail e : Attempt ε σ α)
      (Attempt.fail e' : Attempt ε τ α) :=
  fun _ _ hs => ⟨congrArg Except.error he.symm, hs⟩

theorem update {f : σ → σ} {g : τ → τ} (hfg : ∀ s u, R s u → R (f s) (g u)) :
    Follows R (Except.mapError h) (Attempt.update f) (Attempt.update g) :=
  fun s u hs => ⟨rfl, hfg s u hs⟩

theorem bind {f : α → Attempt ε σ β} {g : α → Attempt ε τ β}
    (hx : Follows R (Except.mapError h) x y)
    (hf : ∀ a, Follows R (Except.mapError h) (f a) (g a)) :
    Follows R (Except.mapError h) (x >>= f) (y >>= g) := by
  intro s u hs
  obtain ⟨u₁, hy, hr⟩ := hx.run hs
  rcases h₁ : x s with ⟨e | a, s₁⟩
  · rw [h₁] at hy hr
    rw [Attempt.bind_error h₁, Attempt.bind_error hy]
    exact ⟨rfl, hr⟩
  · rw [h₁] at hy hr
    rw [Attempt.bind_ok h₁, Attempt.bind_ok hy]
    exact hf a s₁ u₁ hr

theorem lift_bind {result : Except ε α} {f : α → Attempt ε σ β} {g : α → Attempt ε τ β}
    (hr : ∀ e, result = .error e → h e = e)
    (hf : ∀ a, result = .ok a → Follows R (Except.mapError h) (f a) (g a)) :
    Follows R (Except.mapError h) (Attempt.lift result >>= f) (Attempt.lift result >>= g) := by
  cases result with
  | error e => exact fail (hr e rfl)
  | ok a => exact hf a rfl

theorem map (f : α → β) (hx : Follows R (Except.mapError h) x y) :
    Follows R (Except.mapError h) (f <$> x) (f <$> y) := hx.bind fun a => pure (f a)

theorem forEach {f : γ → Attempt ε σ Unit} {g : γ → Attempt ε τ Unit} {cs : List γ}
    (hf : ∀ c ∈ cs, Follows R (Except.mapError h) (f c) (g c)) :
    Follows R (Except.mapError h) (Attempt.forEach f cs) (Attempt.forEach g cs) := by
  induction cs with
  | nil => exact pure ()
  | cons c cs ih =>
    rw [Attempt.forEach_cons, Attempt.forEach_cons]
    exact (hf c List.mem_cons_self).bind fun _ => ih fun c hc => hf c (List.mem_cons_of_mem _ hc)

theorem collect (hx : Follows R (Except.mapError h) x y) (count : Nat) (done : Array α) :
    Follows R (Except.mapError h) (Attempt.collect x count done)
      (Attempt.collect y count done) := by
  induction count generalizing done with
  | zero => exact pure done
  | succ count ih =>
    rw [Attempt.collect_succ, Attempt.collect_succ]
    exact hx.bind fun a => ih (done.push a)

theorem assign (hx : Follows R (Except.mapError h) x y) (a : α) :
    Follows R (InPlace.onError h) (InPlace.assign x a) (InPlace.assign y a) := by
  intro s u hs
  obtain ⟨u₁, hy, hr⟩ := hx.run hs
  unfold InPlace.assign
  rw [hy]
  rcases h₁ : x s with ⟨e | b, s₁⟩
  · rw [h₁] at hr
    exact ⟨rfl, hr⟩
  · rw [h₁] at hr
    exact ⟨rfl, hr⟩

theorem produce {x : InPlace ε σ β α} {y : InPlace ε τ β α} {a : α}
    (hx : Follows R (InPlace.onError h) (x a) (y a)) :
    Follows R (Except.mapError h) (InPlace.produce x a) (InPlace.produce y a) := by
  intro s u hs
  obtain ⟨u₁, hy, hr⟩ := hx.run hs
  unfold InPlace.produce
  rw [hy]
  rcases h₁ : x a s with ⟨⟨e | b, a'⟩, s₁⟩
  · rw [h₁] at hr
    exact ⟨rfl, hr⟩
  · rw [h₁] at hr
    exact ⟨rfl, hr⟩

end Attempts

section Overwriting

variable {x : σ → (Except ε β × α) × σ} {y : τ → (Except ε β × α) × τ}

theorem refused {e : ε} (he : h e = e) (a : α) :
    Follows R (InPlace.onError h) (fun s => ((.error e, a), s) : σ → (Except ε β × α) × σ)
      (fun u => ((.error e, a), u)) :=
  fun _ _ hs => ⟨congrArg (fun e => (Except.error e, a)) he.symm, hs⟩

theorem through (hx : Follows R (InPlace.onError h) x y) (rebuild : α → γ) :
    Follows R (InPlace.onError h)
      (fun s => (((x s).1.1, rebuild (x s).1.2), (x s).2))
      (fun u => (((y u).1.1, rebuild (y u).1.2), (y u).2)) := by
  intro s u hs
  obtain ⟨hy, hr⟩ := hx s u hs
  exact ⟨congrArg (fun o : Except ε β × α => (o.1, rebuild o.2)) hy, hr⟩

end Overwriting

theorem foldl {κ : Type} {γ δ : κ → Type} {φ : (k : κ) → γ k → δ k} {x : (k : κ) → σ → γ k × σ}
    {y : (k : κ) → τ → δ k × τ} {calls : List κ}
    (hxy : ∀ k ∈ calls, Follows R (φ k) (x k) (y k)) {s : σ} {u : τ} (hs : R s u) :
    R (calls.foldl (fun s k => (x k s).2) s) (calls.foldl (fun u k => (y k u).2) u) := by
  induction calls generalizing s u with
  | nil => exact hs
  | cons k calls ih =>
    exact ih (fun k hk => hxy k (List.mem_cons_of_mem _ hk)) (hxy k List.mem_cons_self s u hs).2

end Follows

/-- A state with the number of levels it is in. -/
structure Counted (σ : Type) where
  state : σ
  depth : Nat

namespace Counted

variable {σ γ : Type}

def aside (x : σ → γ × σ) : Counted σ → γ × Counted σ := fun c =>
  let r := x c.state
  (r.1, { c with state := r.2 })

/-- One level further in, where the limit allows for it, and out again. -/
def level (limit : Nat) (refusal : γ) (x : Counted σ → γ × Counted σ) :
    Counted σ → γ × Counted σ := fun c =>
  if limit ≤ c.depth then (refusal, c)
  else
    let r := x { c with depth := c.depth + 1 }
    (r.1, { r.2 with depth := r.2.depth - 1 })

def At (depth : Nat) (s : σ) (c : Counted σ) : Prop := c = ⟨s, depth⟩

def Resting (P : σ → Prop) (s : σ) (c : Counted σ) : Prop := c = ⟨s, 0⟩ ∧ P s

theorem follows_level {δ : Type} {φ : γ → δ} {limit depth : Nat} {refusal : δ} {x : σ → γ × σ}
    {y : Counted σ → δ × Counted σ} (hd : depth < limit) (h : Follows (At (depth + 1)) φ x y) :
    Follows (At depth) φ x (level limit refusal y) := by
  rintro s _ rfl
  obtain ⟨u, hy, rfl⟩ := h.run (u := ⟨s, depth + 1⟩) rfl
  unfold level
  rw [if_neg (Nat.not_le.2 hd), hy]
  exact ⟨rfl, rfl⟩

/-- Steps that follow the same at every level are the same. -/
theorem eq_of_follows {δ : Type} {φ : γ → δ} {x : Nat → σ → γ × σ}
    {y y' : Counted σ → δ × Counted σ} (h : ∀ depth, Follows (At depth) φ (x depth) y)
    (h' : ∀ depth, Follows (At depth) φ (x depth) y') : y = y' := by
  funext c
  obtain ⟨hr, hs⟩ := h c.depth c.state c rfl
  obtain ⟨hr', hs'⟩ := h' c.depth c.state c rfl
  exact Prod.ext (hr.trans hr'.symm) (hs.trans hs'.symm)

theorem level_of_le {limit : Nat} {refusal : γ} {x : Counted σ → γ × Counted σ} {c : Counted σ}
    (h : limit ≤ c.depth) : level limit refusal x c = (refusal, c) := if_pos h

end Counted

abbrev Lift (σ τ : Type) := {γ : Type} → (σ → γ × σ) → τ → γ × τ

/-- A step that follows itself follows itself also from one of two kinds of states to the other. -/
def Lifts {ρ σ τ : Type} (R₀ : ρ → ρ → Prop) (R : σ → τ → Prop) (lift : Lift ρ σ)
    (lift' : Lift ρ τ) : Prop :=
  ∀ {γ : Type} {φ : γ → γ} {x : ρ → γ × ρ}, Follows R₀ φ x x → Follows R φ (lift x) (lift' x)

theorem Counted.lifts_aside {σ : Type} (depth : Nat) :
    Lifts Eq (Counted.At depth) (id : Lift σ σ) aside := by
  rintro γ φ x h s _ rfl
  exact ⟨(h s s rfl).1, rfl⟩

end TagWire
