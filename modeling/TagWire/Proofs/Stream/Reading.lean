import TagWire.Stream.Reader

/-! Laws of steps that read. What a step does is settled by the bytes that it consumes: it ends in
the same way wherever they stand in front, whatever follows, and an input that ends within them is
reported as truncated. -/
namespace TagWire

/-- States that a reader is a part of. -/
class HasReader (σ : Type) where
  reader : σ → Reader

open HasReader (reader)

instance : HasReader Reader := ⟨id⟩

@[simp] theorem HasReader.reader_self (r : Reader) : reader r = r := rfl

namespace Reader

/-- The next bytes are `bs`, and they all come before the source ends or breaks. -/
structure Starts (r : Reader) (bs : List UInt8) : Prop where
  pieces : r.source.chunk ≠ some 0
  enough : bs.length ≤ r.supply
  front : bs <+: r.rest

/-- The next bytes are those of `bs`, but the input ends before the last of them. -/
structure EndsWithin (r : Reader) (bs : List UInt8) : Prop where
  pieces : r.source.chunk ≠ some 0
  ended : r.source.stop = .ended
  front : r.rest <+: bs
  short : r.rest.length < bs.length

/-- The source ends one day and never breaks. -/
structure Ends (r : Reader) : Prop where
  pieces : r.source.chunk ≠ some 0
  ended : r.source.stop = .ended

variable {r : Reader} {bs cs : List UInt8}

theorem supply_le (r : Reader) : r.supply ≤ r.rest.length := by
  have h := r.source.supply_le
  simp only [supply, rest, List.length_append]
  omega

theorem Starts.left (h : r.Starts (bs ++ cs)) : r.Starts bs where
  pieces := h.pieces
  enough := by
    have := h.enough
    rw [List.length_append] at this
    omega
  front := (List.prefix_append bs cs).trans h.front

theorem Starts.right (h : r.Starts (bs ++ cs)) : (r.advance bs.length).Starts cs where
  pieces := h.pieces
  enough := by
    have := h.enough
    rw [List.length_append] at this
    rw [supply_advance h.left.enough]
    omega
  front := by
    obtain ⟨tail, ht⟩ := h.front
    refine ⟨tail, ?_⟩
    rw [rest_advance, ← ht, List.append_assoc, List.drop_left]

theorem Starts.take (h : r.Starts bs) : r.rest.take bs.length = bs := by
  obtain ⟨tail, ht⟩ := h.front
  rw [← ht, List.take_left]

theorem Starts.append (h : r.Starts bs) (hc : (r.advance bs.length).Starts cs) :
    r.Starts (bs ++ cs) where
  pieces := h.pieces
  enough := by
    have hb := h.enough
    have hs := hc.enough
    rw [supply_advance hb] at hs
    rw [List.length_append]
    omega
  front := by
    obtain ⟨tail, ht⟩ := hc.front
    refine ⟨tail, ?_⟩
    rw [rest_advance] at ht
    rw [List.append_assoc, ht]
    conv => lhs; lhs; rw [← h.take]
    exact List.take_append_drop ..

theorem Ends.supply (h : r.Ends) : r.supply = r.rest.length := supply_of_ended h.ended

theorem Ends.starts (h : r.Ends) {bs : List UInt8} (hb : bs <+: r.rest) : r.Starts bs :=
  ⟨h.pieces, h.supply ▸ hb.length_le, hb⟩

theorem starts_of_prefix {unread bs : List UInt8} (h : bs <+: unread) (limits : Limits)
    (offset : Nat) : Starts { source := { unread }, limits, offset } bs :=
  Ends.starts ⟨by simp, rfl⟩ h

theorem Ends.advance (h : r.Ends) {n : Nat} (hn : n ≤ r.supply) : (r.advance n).Ends :=
  ⟨h.pieces, (stop_advance hn).trans h.ended⟩

theorem EndsWithin.ends (h : r.EndsWithin bs) : r.Ends := ⟨h.pieces, h.ended⟩

theorem EndsWithin.split (h : r.EndsWithin (bs ++ cs)) :
    r.EndsWithin bs ∨ r.Starts bs ∧ (r.advance bs.length).EndsWithin cs := by
  have hlen := h.short
  rw [List.length_append] at hlen
  by_cases hb : r.rest.length < bs.length
  · have hp := List.prefix_of_prefix_length_le h.front (List.prefix_append bs cs) (by omega)
    exact .inl ⟨h.pieces, h.ended, hp, hb⟩
  · have hp := List.prefix_of_prefix_length_le (List.prefix_append bs cs) h.front (by omega)
    have hs := h.ends.starts hp
    refine .inr ⟨hs, h.pieces, (stop_advance hs.enough).trans h.ended, ?_, ?_⟩
    · obtain ⟨tail, ht⟩ := h.front
      refine ⟨tail, ?_⟩
      have hd := congrArg (List.drop bs.length) ht
      rwa [List.drop_left, List.drop_append_of_le_length (by omega), ← rest_advance] at hd
    · rw [rest_advance, List.length_drop]
      omega

end Reader

variable {σ α β : Type} [HasReader σ] {L : Limits} {start : Nat}

/-- Under limits `L` and from position `start`, the step ends in `result` having consumed exactly
`bs`, whatever follows. -/
def Settles (L : Limits) (start : Nat) (x : Attempt Error σ α) (bs : List UInt8)
    (result : Except Error α) : Prop :=
  ∀ s, (reader s).limits = L → (reader s).offset = start → (reader s).Starts bs →
    ∃ s', x s = (result, s') ∧ reader s' = (reader s).advance bs.length

def Misses (L : Limits) (start : Nat) (x : Attempt Error σ α) (bs : List UInt8) : Prop :=
  ∀ s, (reader s).limits = L → (reader s).offset = start → (reader s).EndsWithin bs →
    ∃ e s', x s = (.error e, s') ∧ e.isTruncated = true

def Takes (L : Limits) (x : Attempt Error σ α) (bs : List UInt8) (a : α) : Prop :=
  ∀ start, Settles L start x bs (.ok a)

/-- On an input that only ends, the step reports a truncation or is settled by a first part of the
input: every other input with this part gives the same, and every shorter one is truncated. -/
def Streaming (x : Attempt Error σ α) : Prop :=
  ∀ s, (reader s).Ends →
    (∃ e s', x s = (.error e, s') ∧ e.isTruncated = true) ∨
    ∃ bs result, (reader s).Starts bs ∧
      Settles (reader s).limits (reader s).offset x bs result ∧
      Misses (reader s).limits (reader s).offset x bs

/-- Under limits `L`, every value of the step and the number of bytes consumed for it satisfy
`P`. -/
def Yields (L : Limits) (x : Attempt Error σ α) (P : α → Nat → Prop) : Prop :=
  ∀ s a s', (reader s).limits = L → x s = (.ok a, s') →
    (reader s').limits = L ∧ ∃ n, (reader s').offset = (reader s).offset + n ∧ P a n

variable {x : Attempt Error σ α} {f : α → Attempt Error σ β} {bs cs : List UInt8} {a : α} {b : β}

theorem Settles.bind {result : Except Error β} (hx : Settles L start x bs (.ok a))
    (hf : Settles L (start + bs.length) (f a) cs result) :
    Settles L start (x >>= f) (bs ++ cs) result := by
  intro s hl ho hs
  obtain ⟨s₁, h₁, hr₁⟩ := hx s hl ho hs.left
  obtain ⟨s₂, h₂, hr₂⟩ := hf s₁ (by rw [hr₁]; exact hl) (by rw [hr₁]; exact congrArg (· + _) ho)
    (hr₁ ▸ hs.right)
  refine ⟨s₂, (Attempt.bind_ok h₁).trans h₂, ?_⟩
  rw [hr₂, hr₁, Reader.advance_advance, List.length_append]

theorem Settles.bind_error {e : Error} (hx : Settles L start x bs (.error e)) :
    Settles L start (x >>= f) bs (.error e) := by
  intro s hl ho hs
  obtain ⟨s₁, h₁, hr₁⟩ := hx s hl ho hs
  exact ⟨s₁, Attempt.bind_error h₁, hr₁⟩

theorem Settles.of_apply {result : Except Error α} (h : ∀ s, (reader s).limits = L →
    (reader s).offset = start → ∃ s', x s = (result, s') ∧ reader s' = reader s) :
    Settles L start x [] result := by
  intro s hl ho _
  obtain ⟨s', hx, hr⟩ := h s hl ho
  exact ⟨s', hx, by rw [hr, List.length_nil, Reader.advance_zero]⟩

theorem Misses.nil : Misses L start x [] := fun _ _ _ h => absurd h.short (Nat.not_lt_zero _)

theorem Misses.bind (hs : Settles L start x bs (.ok a)) (hx : Misses L start x bs)
    (hf : Misses L (start + bs.length) (f a) cs) : Misses L start (x >>= f) (bs ++ cs) := by
  intro s hl ho hw
  rcases hw.split with hw | ⟨hb, hw⟩
  · obtain ⟨e, s₁, h₁, he⟩ := hx s hl ho hw
    exact ⟨e, s₁, Attempt.bind_error h₁, he⟩
  · obtain ⟨s₁, h₁, hr₁⟩ := hs s hl ho hb
    obtain ⟨e, s₂, h₂, he⟩ := hf s₁ (by rw [hr₁]; exact hl)
      (by rw [hr₁]; exact congrArg (· + _) ho) (hr₁ ▸ hw)
    exact ⟨e, s₂, (Attempt.bind_ok h₁).trans h₂, he⟩

theorem Misses.bind_error (hx : Misses L start x bs) : Misses L start (x >>= f) bs := by
  intro s hl ho hw
  obtain ⟨e, s₁, h₁, he⟩ := hx s hl ho hw
  exact ⟨e, s₁, Attempt.bind_error h₁, he⟩

namespace Takes

theorem pure (a : α) : Takes L (pure a : Attempt Error σ α) [] a :=
  fun _ => Settles.of_apply fun s _ _ => ⟨s, rfl, rfl⟩

theorem bind (hx : Takes L x bs a) (hf : Takes L (f a) cs b) : Takes L (x >>= f) (bs ++ cs) b :=
  fun start => (hx start).bind (hf _)

theorem bind_cons {c : UInt8} (hx : Takes L x [c] a) (hf : Takes L (f a) cs b) :
    Takes L (x >>= f) (c :: cs) b := hx.bind hf

theorem bind_nil (hx : Takes L x bs a) (hf : Takes L (f a) [] b) : Takes L (x >>= f) bs b := by
  have h := hx.bind hf
  rwa [List.append_nil] at h

theorem map (g : α → β) (hx : Takes L x bs a) : Takes L (g <$> x) bs (g a) :=
  hx.bind_nil (pure (g a))

theorem position {f : Nat → Reading β} (hf : ∀ p, Takes L (f p) bs b) :
    Takes L (Reader.position >>= f) bs b :=
  fun start => (Settles.of_apply fun r _ ho => ⟨r, by rw [← ho]; rfl, rfl⟩).bind (hf start _)

theorem limits (g : Limits → α) {f : α → Reading β} (hf : Takes L (f (g L)) bs b) :
    Takes L (Attempt.view (fun r : Reader => g r.limits) >>= f) bs b :=
  fun _ => (Settles.of_apply fun r hl _ => ⟨r, by rw [← hl]; rfl, rfl⟩).bind (hf _)

end Takes

namespace Streaming

theorem of_apply (g : Limits → Nat → Except Error α) (h : ∀ s, ∃ s',
    x s = (g (reader s).limits (reader s).offset, s') ∧ reader s' = reader s) : Streaming x := by
  intro s hs
  refine .inr ⟨[], g (reader s).limits (reader s).offset, hs.starts List.nil_prefix, ?_, .nil⟩
  refine Settles.of_apply fun s' hl ho => ?_
  rw [← hl, ← ho]
  exact h s'

theorem bind (hx : Streaming x) (hf : ∀ a, Streaming (f a)) : Streaming (x >>= f) := by
  intro s hs
  rcases hx s hs with ⟨e, s₁, h₁, he⟩ | ⟨bs, result, hb, hset, hmiss⟩
  · exact .inl ⟨e, s₁, Attempt.bind_error h₁, he⟩
  · cases result with
    | error e => exact .inr ⟨bs, _, hb, hset.bind_error, hmiss.bind_error⟩
    | ok a =>
      obtain ⟨s₁, h₁, hr₁⟩ := hset s rfl rfl hb
      rcases hf a s₁ (hr₁ ▸ hs.advance hb.enough) with
        ⟨e, s₂, h₂, he⟩ | ⟨cs, result, hc, hset', hmiss'⟩
      · exact .inl ⟨e, s₂, (Attempt.bind_ok h₁).trans h₂, he⟩
      · rw [hr₁] at hc hset' hmiss'
        exact .inr ⟨bs ++ cs, result, hb.append hc, hset.bind hset', Misses.bind hset hmiss hmiss'⟩

end Streaming

namespace Yields

variable {P : α → Nat → Prop} {Q : β → Nat → Prop}

theorem of_apply (h : ∀ s a s', (reader s).limits = L → x s = (.ok a, s') →
    reader s' = reader s ∧ P a 0) : Yields L x P := by
  intro s a s' hl hx
  obtain ⟨hr, hp⟩ := h s a s' hl hx
  exact ⟨hr ▸ hl, 0, by rw [hr, Nat.add_zero], hp⟩

theorem pure (h : P a 0) : Yields L (pure a : Attempt Error σ α) P :=
  of_apply fun _ _ _ _ hx => by cases hx; exact ⟨rfl, h⟩

theorem fail (e : Error) : Yields L (Attempt.fail e : Attempt Error σ α) P :=
  of_apply fun _ _ _ _ hx => by cases hx

theorem lift {result : Except Error α} (h : ∀ a, result = .ok a → P a 0) :
    Yields L (Attempt.lift result : Attempt Error σ α) P :=
  of_apply fun _ _ _ _ hx => by
    cases hx
    exact ⟨rfl, h _ rfl⟩

theorem update {g : σ → σ} {P : Unit → Nat → Prop} (hg : ∀ s, reader (g s) = reader s)
    (h : P () 0) : Yields L (Attempt.update g) P :=
  of_apply fun s _ _ _ hx => by
    cases hx
    exact ⟨hg s, h⟩

theorem bind (hx : Yields L x P) (hf : ∀ a n, P a n → Yields L (f a) fun b m => Q b (n + m)) :
    Yields L (x >>= f) Q := by
  intro s b s₂ hl h
  rcases h₁ : x s with ⟨a | a, s₁⟩
  · rw [Attempt.bind_error h₁] at h
    cases h
  · rw [Attempt.bind_ok h₁] at h
    obtain ⟨hl₁, n, hn, hp⟩ := hx s a s₁ hl h₁
    obtain ⟨hl₂, m, hm, hq⟩ := hf a n hp s₁ b s₂ hl₁ h
    exact ⟨hl₂, n + m, by omega, hq⟩

theorem lift_bind {result : Except Error α} {f : α → Attempt Error σ β}
    (hf : ∀ a, result = .ok a → Yields L (f a) Q) : Yields L (Attempt.lift result >>= f) Q := by
  cases result with
  | error e => exact fail e
  | ok a => exact hf a rfl

theorem mono (hx : Yields L x P) {R : α → Nat → Prop} (h : ∀ a n, P a n → R a n) :
    Yields L x R := by
  intro s a s' hl ha
  obtain ⟨hl', n, hn, hp⟩ := hx s a s' hl ha
  exact ⟨hl', n, hn, h a n hp⟩

theorem map {g : α → β} (hx : Yields L x fun a n => Q (g a) n) : Yields L (g <$> x) Q :=
  hx.bind fun a n h => pure (by simpa using h)

theorem view {g : σ → α} {f : α → Attempt Error σ β}
    (hf : ∀ s, (reader s).limits = L → Yields L (f (g s)) Q) :
    Yields L (Attempt.view g >>= f) Q :=
  fun s b s' hl h => hf s hl s b s' hl h

theorem collect {P : α → Prop} (hx : Yields L x fun a _ => P a) (count : Nat) (done : Array α)
    (hd : ∀ a ∈ done, P a) : Yields L (Attempt.collect x count done : Attempt Error σ (Array α))
      fun all _ => all.size = done.size + count ∧ ∀ a ∈ all, P a := by
  induction count generalizing done with
  | zero => exact pure ⟨rfl, hd⟩
  | succ count ih =>
    rw [Attempt.collect_succ]
    refine hx.bind fun a _ ha => (ih (done.push a) ?_).mono fun all _ ⟨hsize, hall⟩ => ⟨?_, hall⟩
    · intro b hb
      rcases Array.mem_push.1 hb with hb | rfl
      · exact hd b hb
      · exact ha
    · rw [hsize, Array.size_push]
      omega

end Yields

namespace Reader

theorem settles_unique {x : Reading α} {result result' : Except Error α}
    (h : Settles L start x bs result) (h' : Settles L start x bs result') : result = result' := by
  let r : Reader := { source := { unread := bs }, limits := L, offset := start }
  have hr : r.Starts bs := starts_of_prefix (List.prefix_refl bs) L start
  obtain ⟨_, h₁, _⟩ := h r rfl rfl hr
  obtain ⟨_, h₂, _⟩ := h' r rfl rfl hr
  exact congrArg Prod.fst (h₁.symm.trans h₂)

theorem takes_bytes (op : String) (bs : List UInt8) : Takes L (bytes op bs.length) bs bs := by
  intro start r _ _ hs
  simp only [HasReader.reader_self] at hs
  have hb := bytes_eq hs.pieces op bs.length
  rw [if_pos hs.enough, hs.take] at hb
  exact ⟨_, hb, rfl⟩

theorem takes_bytes_of_length (op : String) {bs : List UInt8} {n : Nat} (h : bs.length = n) :
    Takes L (bytes op n) bs bs := by
  subst h
  exact takes_bytes op bs

theorem streaming_bytes (op : String) (n : Nat) : Streaming (bytes op n) := by
  intro r hr
  have hb := bytes_eq hr.pieces op n
  simp only [HasReader.reader_self] at hr hb ⊢
  by_cases hn : n ≤ r.supply
  · have hlen : (r.rest.take n).length = n := List.length_take_of_le (hr.supply ▸ hn)
    refine .inr ⟨r.rest.take n, .ok (r.rest.take n), hr.starts (List.take_prefix n _), ?_, ?_⟩
    · exact takes_bytes_of_length op hlen r.offset
    · intro r' _ _ hw
      have hb' := bytes_eq hw.pieces op n
      have hs := hw.short
      have hsup := hw.ends.supply
      simp only [HasReader.reader_self] at hw hb' hs hsup
      rw [if_neg (by omega), hw.ended] at hb'
      exact ⟨_, _, hb', rfl⟩
  · rw [if_neg hn, hr.ended] at hb
    exact .inl ⟨_, _, hb, rfl⟩

theorem takes_buffer (op : String) {bs : List UInt8} (h : bs.length ≤ capacity) :
    Takes L (buffer op bs.length) bs bs := by
  rw [buffer_of_le h]
  exact takes_bytes op bs

theorem yields_bytes (op : String) (n : Nat) :
    Yields L (bytes op n) fun bs m => bs.length = n ∧ m = n := by
  intro r bs r' hl h
  unfold bytes at h
  dsimp only at h
  split at h
  · next back source hf =>
    cases h
    have hlen := Source.length_of_gather_ok hf
    refine ⟨hl, n, rfl, ?_, rfl⟩
    rw [List.length_append, hlen, List.length_take]
    omega
  · cases h

theorem yields_buffer (op : String) (n : Nat) :
    Yields L (buffer op n) fun bs m => n ≤ capacity ∧ bs.length = n ∧ m = n := by
  by_cases hn : n ≤ capacity
  · rw [buffer_of_le hn]
    exact (yields_bytes op n).mono fun _ _ h => ⟨hn, h⟩
  · rw [buffer_of_lt (Nat.not_le.1 hn)]
    exact Yields.fail _

end Reader

end TagWire
