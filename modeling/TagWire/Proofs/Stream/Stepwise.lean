import TagWire.Proofs.Stream.Reading

/-! Steps that are made of reads of so many bytes. Whatever holds of such a read, and passes from
two steps to the one after the other, holds of all of them. -/
namespace TagWire

open HasReader (reader)

/-- What the step does to the reader of its state is what `y` does to a reader. -/
def Runs {σ α : Type} [HasReader σ] (y : Reading α) (x : Attempt Error σ α) : Prop :=
  ∀ s, ∃ s', x s = ((y (reader s)).1, s') ∧ reader s' = (y (reader s)).2

/-- Steps that do nothing with a reader but ask it for so many bytes; between two such reads they
may look at its limits and its position. -/
inductive Stepwise {σ : Type} [HasReader σ] : {α : Type} → Attempt Error σ α → Prop
  | idle {α : Type} {x : Attempt Error σ α} (g : Limits → Nat → Except Error α)
      (h : ∀ s, ∃ s', x s = (g (reader s).limits (reader s).offset, s') ∧ reader s' = reader s) :
      Stepwise x
  | bytes {x : Attempt Error σ (List UInt8)} (op : String) (n : Nat)
      (h : Runs (Reader.bytes op n) x) : Stepwise x
  | bind {α β : Type} {x : Attempt Error σ α} {f : α → Attempt Error σ β} (hx : Stepwise x)
      (hf : ∀ a, Stepwise (f a)) : Stepwise (x >>= f)

variable {σ α β : Type} [HasReader σ] {x : Attempt Error σ α} {y : Reading α}

namespace Runs

theorem settles {L : Limits} {start : Nat} {bs : List UInt8} {result : Except Error α}
    (h : Runs y x) (hy : Settles L start y bs result) : Settles L start x bs result := by
  intro s hl ho hs
  obtain ⟨s', hx, hr⟩ := h s
  obtain ⟨r, hyr, hrr⟩ := hy (reader s) hl ho hs
  rw [hyr] at hx hr
  exact ⟨s', hx, hr.trans hrr⟩

theorem misses {L : Limits} {start : Nat} {bs : List UInt8} (h : Runs y x)
    (hy : Misses L start y bs) : Misses L start x bs := by
  intro s hl ho hs
  obtain ⟨s', hx, _⟩ := h s
  obtain ⟨e, r, hyr, he⟩ := hy (reader s) hl ho hs
  rw [hyr] at hx
  exact ⟨e, s', hx, he⟩

theorem streaming (h : Runs y x) (hy : Streaming y) : Streaming x := by
  intro s hs
  rcases hy (reader s) hs with ⟨e, r, hyr, he⟩ | ⟨bs, result, hb, hset, hmiss⟩
  · obtain ⟨s', hx, _⟩ := h s
    rw [hyr] at hx
    exact .inl ⟨e, s', hx, he⟩
  · exact .inr ⟨bs, result, hb, h.settles hset, h.misses hmiss⟩

end Runs

namespace Stepwise

theorem pure (a : α) : Stepwise (pure a : Attempt Error σ α) :=
  idle (fun _ _ => .ok a) fun s => ⟨s, rfl, rfl⟩

theorem fail (e : Error) : Stepwise (Attempt.fail e : Attempt Error σ α) :=
  idle (fun _ _ => .error e) fun s => ⟨s, rfl, rfl⟩

theorem lift (result : Except Error α) : Stepwise (Attempt.lift result : Attempt Error σ α) :=
  idle (fun _ _ => result) fun s => ⟨s, rfl, rfl⟩

theorem position : Stepwise Reader.position :=
  idle (fun _ start => .ok start) fun s => ⟨s, rfl, rfl⟩

theorem limits (g : Limits → α) : Stepwise (Attempt.view fun r : Reader => g r.limits) :=
  idle (fun L _ => .ok (g L)) fun s => ⟨s, rfl, rfl⟩

theorem map (g : α → β) (hx : Stepwise x) : Stepwise (g <$> x) := hx.bind fun a => pure (g a)

theorem streaming (h : Stepwise x) : Streaming x := by
  induction h with
  | idle g h => exact Streaming.of_apply g h
  | bytes op n h => exact h.streaming (Reader.streaming_bytes op n)
  | bind _ _ hx hf => exact hx.bind hf

theorem of_ok (h : Stepwise x) {s s' : σ} {a : α} (hk : (reader s).source.chunk ≠ some 0)
    (hx : x s = (.ok a, s')) : ∃ bs, (reader s).Starts bs ∧
      reader s' = (reader s).advance bs.length ∧
      Settles (reader s).limits (reader s).offset x bs (.ok a) := by
  induction h generalizing s s' with
  | idle g h =>
    obtain ⟨s₁, h₁, hr⟩ := h s
    rw [hx] at h₁
    simp only [Prod.mk.injEq] at h₁
    obtain ⟨hg, rfl⟩ := h₁
    refine ⟨[], ⟨hk, Nat.zero_le _, List.nil_prefix⟩, by simp [hr], ?_⟩
    apply Settles.of_apply
    intro s₂ hl ho
    rw [hg, ← hl, ← ho]
    exact h s₂
  | bytes op n h =>
    obtain ⟨s₁, h₁, hr⟩ := h s
    rw [hx] at h₁
    rw [Reader.bytes_eq hk] at h₁ hr
    by_cases hn : n ≤ (reader s).supply
    · simp only [if_pos hn, Prod.mk.injEq, Except.ok.injEq] at h₁ hr
      obtain ⟨rfl, rfl⟩ := h₁
      have hlen : ((reader s).rest.take n).length = n :=
        List.length_take_of_le (Nat.le_trans hn (reader s).supply_le)
      refine ⟨(reader s).rest.take n, ⟨hk, by omega, List.take_prefix n _⟩, by rw [hr, hlen], ?_⟩
      exact h.settles (Reader.takes_bytes_of_length op hlen _)
    · simp [if_neg hn] at h₁
  | @bind _ _ x f _ _ ihx ihf =>
    rcases h₁ : x s with ⟨e | v, s₁⟩
    · rw [Attempt.bind_error h₁] at hx
      cases hx
    · rw [Attempt.bind_ok h₁] at hx
      obtain ⟨bs, hb, hr₁, hset₁⟩ := ihx hk h₁
      obtain ⟨cs, hc, hr₂, hset₂⟩ := ihf v (hr₁ ▸ hk) hx
      rw [hr₁] at hc hr₂ hset₂
      refine ⟨bs ++ cs, hb.append hc, ?_, hset₁.bind hset₂⟩
      rw [hr₂, Reader.advance_advance, List.length_append]

end Stepwise

theorem Reader.stepwise_bytes (op : String) (n : Nat) : Stepwise (bytes op n) :=
  .bytes op n fun r => ⟨(bytes op n r).2, rfl, rfl⟩

end TagWire
