import TagWire.Proofs.Stream.Stepwise

/-! Readers that no read tells apart. It makes no difference whether bytes were handed back or are
still in the source, nor how the source hands them out, as long as it does not break. -/
namespace TagWire

open HasReader (reader)

namespace Reader

variable {α : Type} {r r' : Reader} {n : Nat}

/-- The reader once a consumer that was shown all that is left has used `n` bytes. -/
def used (r : Reader) (n : Nat) : Reader where
  source := r.source.advance r.source.supply
  limits := r.limits
  pushback := r.rest.drop n
  offset := r.offset + n

theorem unread_used (h : r.Ends) (n : Nat) : (r.used n).source.unread = [] := by
  simp [used, Source.advance, Source.supply_of_ended h.ended]

theorem rest_used (h : r.Ends) (n : Nat) : (r.used n).rest = r.rest.drop n := by
  rw [rest, unread_used h, List.append_nil]
  rfl

theorem Ends.used (h : r.Ends) (n : Nat) : (r.used n).Ends where
  pieces := h.pieces
  ended := (Source.stop_advance (Nat.le_refl _)).trans h.ended

theorem remaining_eq (h : r.Ends) (op : String) (consume : List UInt8 → α → Except Error Nat × α)
    (a : α) : remaining op consume a r = match consume r.rest a with
      | (.error e, a) => ((.error e, a), { r with source := r.source.advance r.source.supply })
      | (.ok n, a) =>
        if r.rest.length < n then ((.error (.overConsumed op n r.rest.length), a),
          { r with source := r.source.advance r.source.supply })
        else ((.ok n, a), r.used n) := by
  unfold remaining
  rw [Source.drain_eq h.pieces, if_pos h.ended]
  rfl

/-- The same bytes to come, at the same position, from sources that end. -/
structure Alike (r r' : Reader) : Prop where
  limits : r.limits = r'.limits
  offset : r.offset = r'.offset
  rest : r.rest = r'.rest
  ends : r.Ends
  ends' : r'.Ends

namespace Alike

theorem refl (h : r.Ends) : r.Alike r := ⟨rfl, rfl, rfl, h, h⟩

theorem trans {r'' : Reader} (h : r.Alike r') (h' : r'.Alike r'') : r.Alike r'' :=
  ⟨h.limits.trans h'.limits, h.offset.trans h'.offset, h.rest.trans h'.rest, h.ends, h'.ends'⟩

theorem supply (h : r.Alike r') : r.supply = r'.supply := by
  rw [h.ends.supply, h.ends'.supply, h.rest]

theorem advance (h : r.Alike r') (hn : n ≤ r.supply) : (r.advance n).Alike (r'.advance n) where
  limits := h.limits
  offset := congrArg (· + n) h.offset
  rest := by rw [rest_advance, rest_advance, h.rest]
  ends := h.ends.advance hn
  ends' := h.ends'.advance (h.supply ▸ hn)

theorem used (h : r.Alike r') (n : Nat) : (r.used n).Alike (r'.used n) where
  limits := h.limits
  offset := congrArg (· + n) h.offset
  rest := by rw [rest_used h.ends, rest_used h.ends', h.rest]
  ends := h.ends.used n
  ends' := h.ends'.used n

end Alike

end Reader

variable {σ α β : Type} [HasReader σ] {x : Attempt Error σ α} {f : α → Attempt Error σ β}

/-- On readers that are alike the step gives the same, and leaves them alike when it succeeds. -/
def Indifferent (x : Attempt Error σ α) : Prop :=
  ∀ s s', (reader s).Alike (reader s') →
    (x s).1 = (x s').1 ∧ ∀ a, (x s).1 = .ok a → (reader (x s).2).Alike (reader (x s').2)

namespace Indifferent

theorem bind (hx : Indifferent x) (hf : ∀ a, Indifferent (f a)) : Indifferent (x >>= f) := by
  intro s s' h
  obtain ⟨heq, hal⟩ := hx s s' h
  rcases h₁ : x s with ⟨e | a, s₁⟩
  · rcases h₂ : x s' with ⟨e' | a', s₂⟩
    · rw [h₁, h₂] at heq
      rw [Attempt.bind_error h₁, Attempt.bind_error h₂]
      exact ⟨congrArg Except.error (Except.error.inj heq), nofun⟩
    · rw [h₁, h₂] at heq
      cases heq
  · rcases h₂ : x s' with ⟨e' | a', s₂⟩
    · rw [h₁, h₂] at heq
      cases heq
    · rw [h₁, h₂] at heq
      cases heq
      rw [h₁, h₂] at hal
      rw [Attempt.bind_ok h₁, Attempt.bind_ok h₂]
      exact hf a s₁ s₂ (hal a rfl)

theorem of_runs {y : Reading α} (h : Runs y x) (hy : Indifferent y) : Indifferent x := by
  intro s s' hal
  obtain ⟨s₁, h₁, hr₁⟩ := h s
  obtain ⟨s₂, h₂, hr₂⟩ := h s'
  rw [h₁, h₂, hr₁, hr₂]
  exact hy (reader s) (reader s') hal

end Indifferent

namespace Reader

theorem indifferent_bytes (op : String) (n : Nat) : Indifferent (bytes op n) := by
  intro r r' h
  simp only [HasReader.reader_self] at h ⊢
  rw [bytes_eq h.ends.pieces, bytes_eq h.ends'.pieces, h.supply]
  by_cases hn : n ≤ r'.supply
  · rw [if_pos hn, if_pos hn, h.rest]
    exact ⟨rfl, fun _ _ => h.advance (h.supply ▸ hn)⟩
  · rw [if_neg hn, if_neg hn, h.offset, h.ends.ended, h.ends'.ended]
    exact ⟨rfl, nofun⟩

theorem indifferent_remaining (op : String) (consume : List UInt8 → α → Except Error Nat × α)
    (a : α) : Indifferent (InPlace.produce (remaining op consume) a) := by
  intro r r' h
  simp only [HasReader.reader_self] at h ⊢
  unfold InPlace.produce
  rw [remaining_eq h.ends, remaining_eq h.ends', h.rest]
  rcases consume r'.rest a with ⟨e | n, a'⟩
  · exact ⟨rfl, nofun⟩
  · by_cases hn : r'.rest.length < n
    · simp only [if_pos hn]
      exact ⟨trivial, nofun⟩
    · simp only [if_neg hn]
      exact ⟨trivial, fun _ _ => h.used n⟩

end Reader

theorem Stepwise.indifferent (h : Stepwise x) : Indifferent x := by
  induction h with
  | idle g h =>
    intro s s' hal
    obtain ⟨s₁, h₁, hr₁⟩ := h s
    obtain ⟨s₂, h₂, hr₂⟩ := h s'
    rw [h₁, h₂, hr₁, hr₂, hal.limits, hal.offset]
    exact ⟨rfl, fun _ _ => hal⟩
  | bytes op n h => exact .of_runs h (Reader.indifferent_bytes op n)
  | bind _ _ hx hf => exact hx.bind hf

end TagWire
