import TagWire.Proofs.Codec.Laws
import TagWire.Proofs.Depth

/-! What a step can give at best. Where the bytes of a value are in front, a typed read may refuse
them for their length, but when it does not it gives what the value is carried as and has consumed
just its bytes. -/
namespace TagWire

open HasReader (reader)

variable {σ α β : Type} [HasReader σ] {L : Limits}

/-- Where `bs` is in front, the step succeeds with nothing but `a` and consumes nothing but `bs`. -/
def AtBest (L : Limits) (x : Attempt Error σ α) (bs : List UInt8) (a : α) : Prop :=
  ∀ s v s', (reader s).limits = L → (reader s).Starts bs → x s = (.ok v, s') →
    v = a ∧ reader s' = (reader s).advance bs.length

variable {x : Attempt Error σ α} {f : α → Attempt Error σ β} {bs cs : List UInt8} {a : α} {b : β}

namespace AtBest

theorem of_takes (h : Takes L x bs a) : AtBest L x bs a := by
  intro s v s' hl hs hx
  obtain ⟨s₁, h₁, hr⟩ := h (reader s).offset s hl rfl hs
  rw [hx] at h₁
  cases h₁
  exact ⟨rfl, hr⟩

theorem pure (a : α) : AtBest L (pure a : Attempt Error σ α) [] a := of_takes (Takes.pure a)

theorem fail (e : Error) : AtBest L (.fail e : Attempt Error σ α) bs a := by
  rintro _ _ _ _ _ ⟨⟩

theorem bind (hx : AtBest L x bs a) (hf : AtBest L (f a) cs b) :
    AtBest L (x >>= f) (bs ++ cs) b := by
  intro s v s₂ hl hs h
  rcases h₁ : x s with ⟨e | a', s₁⟩
  · rw [Attempt.bind_error h₁] at h
    cases h
  · rw [Attempt.bind_ok h₁] at h
    obtain ⟨rfl, hr₁⟩ := hx s a' s₁ hl hs.left h₁
    obtain ⟨rfl, hr₂⟩ := hf s₁ v s₂ (by rw [hr₁]; exact hl) (hr₁ ▸ hs.right) h
    exact ⟨rfl, by rw [hr₂, hr₁, Reader.advance_advance, List.length_append]⟩

theorem bind_cons {c : UInt8} (hx : AtBest L x [c] a) (hf : AtBest L (f a) cs b) :
    AtBest L (x >>= f) (c :: cs) b := hx.bind hf

theorem bind_nil (hx : AtBest L x bs a) (hf : AtBest L (f a) [] b) :
    AtBest L (x >>= f) bs b := by
  have h := hx.bind hf
  rwa [List.append_nil] at h

theorem map (g : α → β) (hx : AtBest L x bs a) : AtBest L (g <$> x) bs (g a) :=
  hx.bind_nil (pure (g a))

theorem view {g : σ → α} (hf : ∀ a, AtBest L (f a) bs b) :
    AtBest L (Attempt.view g >>= f) bs b := fun s => hf (g s) s

end AtBest

namespace Reader

end Reader

end TagWire
