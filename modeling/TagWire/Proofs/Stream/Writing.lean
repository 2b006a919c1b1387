import TagWire.Stream.Writer

/-! Laws of steps that write to a sink that never fills: what a step appends when it succeeds, and
that it does succeed. -/
namespace TagWire

class HasWriter (σ : Type) where
  writer : σ → Writer

open HasWriter (writer)

instance : HasWriter Writer := ⟨id⟩

@[simp] theorem HasWriter.writer_self (w : Writer) : writer w = w := rfl

namespace Writer

def append (w : Writer) (bs : List UInt8) : Writer where
  sink := { w.sink with taken := w.sink.taken ++ bs }
  offset := w.offset + bs.length

@[simp] theorem append_nil (w : Writer) : w.append [] = w := by
  simp [append]

@[simp] theorem append_append (w : Writer) (bs cs : List UInt8) :
    (w.append bs).append cs = w.append (bs ++ cs) := by
  simp [append, Nat.add_assoc]

end Writer

variable {σ α β : Type} [HasWriter σ]

/-- Every value of the step and the bytes appended for it satisfy `P`. -/
def Appends (x : Attempt Error σ α) (P : α → List UInt8 → Prop) : Prop :=
  ∀ s a s', (writer s).sink.room = none → x s = (.ok a, s') →
    ∃ bs, writer s' = (writer s).append bs ∧ P a bs

def Emits (x : Attempt Error σ α) (a : α) (bs : List UInt8) : Prop :=
  ∀ s, (writer s).sink.room = none → ∃ s', x s = (.ok a, s') ∧ writer s' = (writer s).append bs

variable {x : Attempt Error σ α} {f : α → Attempt Error σ β} {a : α} {b : β} {bs cs : List UInt8}
  {P : α → List UInt8 → Prop} {Q : β → List UInt8 → Prop}

namespace Emits

theorem of_apply (h : ∀ s, ∃ s', x s = (.ok a, s') ∧ writer s' = writer s) : Emits x a [] := by
  intro s _
  obtain ⟨s', hx, hw⟩ := h s
  exact ⟨s', hx, by rw [hw, Writer.append_nil]⟩

theorem pure (a : α) : Emits (pure a : Attempt Error σ α) a [] := of_apply fun s => ⟨s, rfl, rfl⟩

theorem lift (a : α) : Emits (Attempt.lift (.ok a) : Attempt Error σ α) a [] :=
  of_apply fun s => ⟨s, rfl, rfl⟩

theorem update {g : σ → σ} (hg : ∀ s, writer (g s) = writer s) : Emits (Attempt.update g) () [] :=
  of_apply fun s => ⟨g s, rfl, hg s⟩

theorem bind (hx : Emits x a bs) (hf : Emits (f a) b cs) : Emits (x >>= f) b (bs ++ cs) := by
  intro s hs
  obtain ⟨s₁, h₁, hw₁⟩ := hx s hs
  obtain ⟨s₂, h₂, hw₂⟩ := hf s₁ (by rw [hw₁]; exact hs)
  exact ⟨s₂, (Attempt.bind_ok h₁).trans h₂, by rw [hw₂, hw₁, Writer.append_append]⟩

theorem map (g : α → β) (hx : Emits x a bs) : Emits (g <$> x) (g a) bs := by
  have h := hx.bind (f := fun a => Pure.pure (g a)) (pure (g a))
  rwa [List.append_nil] at h

theorem appends (hx : Emits x a bs) (h : P a bs) : Appends x P := by
  intro s a' s' hs ha
  obtain ⟨s₁, h₁, hw⟩ := hx s hs
  rw [ha] at h₁
  cases h₁
  exact ⟨bs, hw, h⟩

end Emits

namespace Appends

theorem fail (e : Error) : Appends (Attempt.fail e : Attempt Error σ α) P :=
  fun _ _ _ _ hx => by cases hx

theorem bind (hx : Appends x P)
    (hf : ∀ a bs, P a bs → Appends (f a) fun b cs => Q b (bs ++ cs)) : Appends (x >>= f) Q := by
  intro s b s₂ hs h
  rcases h₁ : x s with ⟨a | a, s₁⟩
  · rw [Attempt.bind_error h₁] at h
    cases h
  · rw [Attempt.bind_ok h₁] at h
    obtain ⟨bs, hw₁, hp⟩ := hx s a s₁ hs h₁
    obtain ⟨cs, hw₂, hq⟩ := hf a bs hp s₁ b s₂ (by rw [hw₁]; exact hs) h
    exact ⟨bs ++ cs, by rw [hw₂, hw₁, Writer.append_append], hq⟩

theorem after (hx : Emits x a bs) (hf : Appends (f a) fun b cs => Q b (bs ++ cs)) :
    Appends (x >>= f) Q := by
  intro s b s₂ hs h
  obtain ⟨s₁, h₁, hw₁⟩ := hx s hs
  rw [Attempt.bind_ok h₁] at h
  obtain ⟨cs, hw₂, hq⟩ := hf s₁ b s₂ (by rw [hw₁]; exact hs) h
  exact ⟨bs ++ cs, by rw [hw₂, hw₁, Writer.append_append], hq⟩

theorem lift_bind {result : Except Error α} (hf : ∀ a, result = .ok a → Appends (f a) Q) :
    Appends (Attempt.lift result >>= f) Q := by
  cases result with
  | error e => exact fun _ _ _ _ h => by cases h
  | ok a => exact hf a rfl

theorem mono (hx : Appends x P) {R : α → List UInt8 → Prop} (h : ∀ a bs, P a bs → R a bs) :
    Appends x R := by
  intro s a s' hs ha
  obtain ⟨bs, hw, hp⟩ := hx s a s' hs ha
  exact ⟨bs, hw, h a bs hp⟩

end Appends

namespace Writer

theorem emits_bytes (op : String) (piece : List UInt8) :
    Emits (bytes op piece) piece.length piece := by
  intro w hw
  simp only [HasWriter.writer_self] at hw
  refine ⟨_, bytes_of_fits (by simp [hw]), ?_⟩
  simp [append, hw]

end Writer

end TagWire
