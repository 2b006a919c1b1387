import TagWire.Proofs.Stream.Writing

/-! Steps that only append. A sink can not be looked at, so on one that never fills such a step
hangs on nothing but its position, and mostly not even on that. -/
namespace TagWire

open HasWriter (writer)

variable {σ α β : Type} [HasWriter σ]

/-- From position `start`, on a sink that never fills, the step ends in `result` and has appended
`bs`, whatever the sink holds. -/
def Puts (x : Attempt Error σ α) (start : Nat) (bs : List UInt8) (result : Except Error α) : Prop :=
  ∀ s, (writer s).sink.room = none → (writer s).offset = start →
    ∃ s', x s = (result, s') ∧ writer s' = (writer s).append bs

/-- What the sink holds has no part in what the step does. -/
def Blind (x : Attempt Error σ α) : Prop := ∀ start, ∃ bs result, Puts x start bs result

/-- Nor has the position. -/
def Constant (x : Attempt Error σ α) : Prop := ∃ bs result, ∀ start, Puts x start bs result

/-- What the step appends to the sink of a state, where this is empty, or the error in which it
ends. -/
def output (x : Attempt Error σ α) (s : σ) : Except Error (List UInt8) :=
  match x s with
  | (.ok _, s') => .ok (writer s').sink.taken
  | (.error e, _) => .error e

/-- Whatever the sink holds, from each position on the step appends `piece`, or ends in its
error. -/
def Outputs (x : Attempt Error σ α) (piece : Nat → Except Error (List UInt8)) : Prop :=
  ∀ start, ∃ bs result, Puts x start bs result ∧ piece start = result.map fun _ => bs

def inTurn (piece : α → Nat → Except Error (List UInt8)) :
    List α → Nat → Except Error (List UInt8)
  | [], _ => .ok []
  | a :: as, start => do
    let bs ← piece a start
    let cs ← inTurn piece as (start + bs.length)
    return bs ++ cs

/-- Where the second step succeeds, so does the first, wherever the two stand, and it appends what
the second appends with some bytes left out. -/
def Thins (x : Attempt Error σ α) (y : Attempt Error σ β) : Prop :=
  ∀ s u b u', (writer s).sink.room = none → (writer u).sink.room = none → y u = (.ok b, u') →
    ∃ a s' bs cs, x s = (.ok a, s') ∧ writer s' = (writer s).append bs ∧
      writer u' = (writer u).append cs ∧ bs.Sublist cs

variable {x : Attempt Error σ α} {f : α → Attempt Error σ β} {a : α} {bs cs : List UInt8}
  {start : Nat}

theorem of_output {s : σ} (h : output x s = .ok bs) : ∃ a s', x s = (.ok a, s') := by
  unfold output at h
  split at h
  · next a s' hx => exact ⟨a, s', hx⟩
  · cases h

theorem output_of_append {s s' : σ} (h : x s = (.ok a, s')) (hs : (writer s).sink.taken = [])
    (hw : writer s' = (writer s).append bs) : output x s = .ok bs := by
  have ht : (writer s').sink.taken = bs := by
    rw [hw, Writer.append, hs, List.nil_append]
  unfold output
  rw [h]
  exact congrArg Except.ok ht

namespace Puts

theorem of_apply {result : Except Error α}
    (h : ∀ s, ∃ s', x s = (result, s') ∧ writer s' = writer s) : Puts x start [] result := by
  intro s _ _
  obtain ⟨s', hx, hw⟩ := h s
  exact ⟨s', hx, by rw [hw, Writer.append_nil]⟩

theorem bind {result : Except Error β} (hx : Puts x start bs (.ok a))
    (hf : Puts (f a) (start + bs.length) cs result) : Puts (x >>= f) start (bs ++ cs) result := by
  intro s hs ho
  obtain ⟨s₁, h₁, hw₁⟩ := hx s hs ho
  obtain ⟨s₂, h₂, hw₂⟩ := hf s₁ (by rw [hw₁]; exact hs) (by rw [hw₁]; exact congrArg (· + _) ho)
  exact ⟨s₂, (Attempt.bind_ok h₁).trans h₂, by rw [hw₂, hw₁, Writer.append_append]⟩

theorem bind_error {e : Error} (hx : Puts x start bs (.error e)) :
    Puts (x >>= f) start bs (.error e) := by
  intro s hs ho
  obtain ⟨s₁, h₁, hw₁⟩ := hx s hs ho
  exact ⟨s₁, Attempt.bind_error h₁, hw₁⟩

theorem output {result : Except Error α} (hx : Puts x start bs result) {s : σ}
    (hs : writer s = { offset := start }) : output x s = result.map fun _ => bs := by
  obtain ⟨s', h, hw⟩ := hx s (by rw [hs]) (by rw [hs])
  cases result with
  | error e =>
    unfold TagWire.output
    rw [h]
    rfl
  | ok a => exact output_of_append h (by rw [hs]) hw

end Puts

namespace Constant

theorem of_emits (h : Emits x a bs) : Constant x := ⟨bs, .ok a, fun _ s hs _ => h s hs⟩

theorem of_apply {result : Except Error α}
    (h : ∀ s, ∃ s', x s = (result, s') ∧ writer s' = writer s) : Constant x :=
  ⟨[], result, fun _ => Puts.of_apply h⟩

theorem pure (a : α) : Constant (pure a : Attempt Error σ α) := of_apply fun s => ⟨s, rfl, rfl⟩

theorem fail (e : Error) : Constant (Attempt.fail e : Attempt Error σ α) :=
  of_apply fun s => ⟨s, rfl, rfl⟩

theorem lift (result : Except Error α) : Constant (Attempt.lift result : Attempt Error σ α) :=
  of_apply fun s => ⟨s, rfl, rfl⟩

theorem update {g : σ → σ} (hg : ∀ s, writer (g s) = writer s) : Constant (Attempt.update g) :=
  of_apply fun s => ⟨g s, rfl, hg s⟩

theorem bind (hx : Constant x) (hf : ∀ a, Constant (f a)) : Constant (x >>= f) := by
  obtain ⟨bs, result, hx⟩ := hx
  cases result with
  | error e => exact ⟨bs, .error e, fun start => (hx start).bind_error⟩
  | ok a =>
    obtain ⟨cs, result, hf⟩ := hf a
    exact ⟨bs ++ cs, result, fun start => (hx start).bind (hf _)⟩

theorem lift_bind {result : Except Error α} (hf : ∀ a, result = .ok a → Constant (f a)) :
    Constant (Attempt.lift result >>= f) := by
  cases result with
  | error e => exact fail e
  | ok a => exact hf a rfl

theorem blind (h : Constant x) : Blind x := by
  obtain ⟨bs, result, hx⟩ := h
  exact fun start => ⟨bs, result, hx start⟩

end Constant

namespace Blind

theorem bind (hx : Blind x) (hf : ∀ a, Blind (f a)) : Blind (x >>= f) := by
  intro start
  obtain ⟨bs, result, hx⟩ := hx start
  cases result with
  | error e => exact ⟨bs, .error e, hx.bind_error⟩
  | ok a =>
    obtain ⟨cs, result, hf⟩ := hf a (start + bs.length)
    exact ⟨bs ++ cs, result, hx.bind hf⟩

end Blind

namespace Outputs

variable {piece : Nat → Except Error (List UInt8)}

theorem output (h : Outputs x piece) {s : σ} (hs : writer s = { offset := start }) :
    output x s = piece start := by
  obtain ⟨bs, result, hx, hp⟩ := h start
  rw [hp]
  exact hx.output hs

theorem lift_bind {result : Except Error α} {piece : α → Nat → Except Error (List UInt8)}
    (hf : ∀ a, result = .ok a → Outputs (f a) (piece a)) :
    Outputs (Attempt.lift result >>= f) fun start => result >>= fun a => piece a start := by
  cases result with
  | error e => exact fun start => ⟨[], .error e, Puts.of_apply fun s => ⟨s, rfl, rfl⟩, rfl⟩
  | ok a => exact hf a rfl

theorem bind_quiet {b : β} (hx : Outputs x piece) (hf : ∀ a, Emits (f a) b []) :
    Outputs (x >>= f) piece := by
  intro start
  obtain ⟨bs, result, hx, hp⟩ := hx start
  cases result with
  | error e => exact ⟨bs, .error e, hx.bind_error, hp⟩
  | ok a =>
    refine ⟨bs ++ [], .ok b, hx.bind fun s hs _ => hf a s hs, ?_⟩
    rw [List.append_nil]
    exact hp

theorem forEach {f : β → Attempt Error σ Unit} {piece : β → Nat → Except Error (List UInt8)}
    (h : ∀ b, Outputs (f b) (piece b)) (bs : List β) :
    Outputs (Attempt.forEach f bs : Attempt Error σ Unit) (inTurn piece bs) := by
  induction bs with
  | nil => exact fun start => ⟨[], .ok (), Puts.of_apply fun s => ⟨s, rfl, rfl⟩, rfl⟩
  | cons b bs ih =>
    intro start
    rw [Attempt.forEach_cons, inTurn]
    obtain ⟨cs, result, hx, hp⟩ := h b start
    rw [hp]
    cases result with
    | error e => exact ⟨cs, .error e, hx.bind_error, rfl⟩
    | ok _ =>
      obtain ⟨ds, result, hf, hq⟩ := ih (start + cs.length)
      refine ⟨cs ++ ds, result, hx.bind hf, ?_⟩
      change (inTurn piece bs (start + cs.length)).map (cs ++ ·) = _
      rw [hq]
      cases result <;> rfl

end Outputs

theorem Constant.outputs (h : Constant x) {s : σ} (hs : writer s = {}) :
    Outputs x fun _ => output x s := by
  obtain ⟨bs, result, h⟩ := h
  exact fun start => ⟨bs, result, h start, (h 0).output hs⟩

theorem Blind.outputs (h : Blind x) {s : Nat → σ}
    (hs : ∀ start, writer (s start) = { offset := start }) :
    Outputs x fun start => output x (s start) := by
  intro start
  obtain ⟨bs, result, h⟩ := h start
  exact ⟨bs, result, h, h.output (hs start)⟩

namespace Thins

variable {γ δ : Type} {y : Attempt Error σ β}

theorem of_emits {b : β} (hx : Emits x a bs) (hy : Emits y b cs) (h : bs.Sublist cs) :
    Thins x y := by
  intro s u b' u' hs hu hyu
  obtain ⟨s', hxs, hw⟩ := hx s hs
  obtain ⟨u₁, hyu₁, hw'⟩ := hy u hu
  rw [hyu] at hyu₁
  cases hyu₁
  exact ⟨a, s', bs, cs, hxs, hw, hw', h⟩

theorem bind {f : α → Attempt Error σ γ} {g : β → Attempt Error σ δ} (h : Thins x y)
    (hf : ∀ a b, Thins (f a) (g b)) : Thins (x >>= f) (y >>= g) := by
  intro s u d u₂ hs hu hy
  rcases hy₁ : y u with ⟨e | b, u₁⟩
  · rw [Attempt.bind_error hy₁] at hy
    cases hy
  · rw [Attempt.bind_ok hy₁] at hy
    obtain ⟨a, s₁, bs, cs, hx₁, hw₁, hv₁, hsub⟩ := h s u b u₁ hs hu hy₁
    obtain ⟨c, s₂, bs', cs', hx₂, hw₂, hv₂, hsub'⟩ := hf a b s₁ u₁ d u₂ (by rw [hw₁]; exact hs)
      (by rw [hv₁]; exact hu) hy
    refine ⟨c, s₂, bs ++ bs', cs ++ cs', (Attempt.bind_ok hx₁).trans hx₂, ?_, ?_, hsub.append hsub'⟩
    · rw [hw₂, hw₁, Writer.append_append]
    · rw [hv₂, hv₁, Writer.append_append]

theorem skip (h : Thins x y) (c : γ) : Thins (pure c : Attempt Error σ γ) y := by
  intro s u b u' hs hu hy
  obtain ⟨-, -, -, cs, -, -, hv, -⟩ := h s u b u' hs hu hy
  exact ⟨c, s, [], cs, rfl, by rw [Writer.append_nil], hv, List.nil_sublist cs⟩

end Thins

theorem Constant.thins (h : Constant x) : Thins x x := by
  obtain ⟨bs, result, h⟩ := h
  cases result with
  | error e =>
    intro s u b u' _ hu hx
    obtain ⟨u₁, hx₁, _⟩ := h _ u hu rfl
    rw [hx] at hx₁
    cases hx₁
  | ok a =>
    have he : Emits x a bs := fun s hs => h _ s hs rfl
    exact Thins.of_emits he he (List.Sublist.refl bs)

end TagWire
