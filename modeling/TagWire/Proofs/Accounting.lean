import Mathlib.Logic.Relation
import TagWire.Proofs.Wire.Script

/-! A reader accounts for every byte. In whatever order it is read from, pulled from and shown to
consumers, its input is what it has consumed, then what it keeps, then what the source still holds,
and every operation is served from the first byte that has not been consumed. -/
namespace TagWire.Reader

/-- One operation that succeeds. A consumer that claims more than it was shown does not. -/
inductive Operates (r r' : Reader) : Prop
  | typed {α : Type} {x : Reading α} {v : α} (hx : TypedRead x) (h : x r = (.ok v, r'))
  | pull {n : Nat} {bs : List UInt8} (h : pull n r = (.ok bs, r'))
  | remaining {α : Type} {op : String} {consume : List UInt8 → α → Except Error Nat × α}
      {a a' : α} {used : Nat} (h : remaining op consume a r = ((.ok used, a'), r'))

def Reaches : Reader → Reader → Prop := Relation.ReflTransGen Operates

/-- Has consumed the first bytes of the input, and has the others before it. -/
structure Stands (input : List UInt8) (r : Reader) : Prop where
  pieces : r.source.chunk ≠ some 0
  offset_le : r.offset ≤ input.length
  rest : r.rest = input.drop r.offset

/-- What can be said of a reader in the midst of its input. -/
structure Accounts (input : List UInt8) (r : Reader) : Prop where
  offset_le : r.offset ≤ input.length
  split : input.take r.offset ++ r.pushback ++ r.source.unread = input
  /-- What the reader would hand over in the end: pulled from the source and not consumed. -/
  kept : r.pushback = (input.take (input.length - r.source.unread.length)).drop r.offset
  /-- A typed read has its value from the bytes at the offset and from nothing else. -/
  typed : ∀ {α : Type} {x : Reading α} {v : α} {r' : Reader}, TypedRead x → x r = (.ok v, r') →
    ∃ bs, bs <+: input.drop r.offset ∧ r'.offset = r.offset + bs.length ∧
      Settles r.limits r.offset x bs (.ok v)
  bytes : ∀ {op : String} {n : Nat} {bs : List UInt8} {r' : Reader},
    bytes op n r = (.ok bs, r') →
      bs = (input.drop r.offset).take n ∧ bs.length = n ∧ r'.offset = r.offset + n
  pull : ∀ {n : Nat} {bs : List UInt8} {r' : Reader}, pull n r = (.ok bs, r') →
    bs.length ≤ n ∧ bs <+: input.drop r.offset ∧ r'.offset = r.offset + bs.length
  /-- What a consumer does is what it does with all of the input from the offset on. -/
  remaining : ∀ {α : Type} {op : String} {consume : List UInt8 → α → Except Error Nat × α}
    {a a' : α} {used : Nat} {r' : Reader}, remaining op consume a r = ((.ok used, a'), r') →
      consume (input.drop r.offset) a = (.ok used, a') ∧ r'.offset = r.offset + used

variable {input bs : List UInt8} {r r' : Reader} {n : Nat}

theorem chunk_of_pull (h : pull n r = (.ok bs, r')) : r'.source.chunk = r.source.chunk := by
  unfold pull at h
  split at h
  · split at h
    · next hs =>
      obtain ⟨-, -, -, rfl⟩ := Source.of_read_ok hs
      cases h
      rfl
    · cases h
  · cases h
    rfl

theorem chunk_of_remaining {α : Type} {op : String}
    {consume : List UInt8 → α → Except Error Nat × α} {a a' : α} {used : Nat}
    (hk : r.source.chunk ≠ some 0) (h : Reader.remaining op consume a r = ((.ok used, a'), r')) :
    r'.source.chunk = r.source.chunk := by
  unfold Reader.remaining at h
  rw [Source.drain_eq hk] at h
  split at h
  · cases h
  · next hd =>
    simp only [Prod.mk.injEq] at hd
    obtain ⟨-, rfl⟩ := hd
    dsimp only at h
    split at h
    · cases h
    · split at h <;> cases h
      rfl

namespace Stands

theorem of_source {s : Source} {limits : Limits} (hs : s.chunk ≠ some 0) :
    Stands s.unread { source := s, limits } where
  pieces := hs
  offset_le := Nat.zero_le _
  rest := by simp [Reader.rest]

theorem move (h : Stands input r) (hk : r'.source.chunk = r.source.chunk)
    (hn : n ≤ r.rest.length) (hr : r'.rest = r.rest.drop n) (ho : r'.offset = r.offset + n) :
    Stands input r' where
  pieces := hk ▸ h.pieces
  offset_le := by
    have := h.offset_le
    rw [h.rest, List.length_drop] at hn
    omega
  rest := by rw [hr, ho, h.rest, List.drop_drop]

theorem operates (h : Stands input r) (hs : Operates r r') : Stands input r' := by
  cases hs with
  | typed hx hv =>
    obtain ⟨bs, hb, rfl, -⟩ := hx.stepwise.of_ok h.pieces hv
    exact h.move rfl hb.front.length_le (rest_advance r bs.length) rfl
  | @pull n bs hp =>
    obtain ⟨-, hb, ho⟩ := of_pull_ok hp
    refine h.move (n := bs.length) (chunk_of_pull hp) ?_ ?_ ho
    · simp [← hb]
    · simp [← hb]
  | remaining hc =>
    obtain ⟨-, hu, hr, ho⟩ := of_remaining_ok h.pieces hc
    exact h.move (chunk_of_remaining h.pieces hc) hu hr ho

theorem reaches (h : Stands input r) (hs : Reaches r r') : Stands input r' := by
  induction hs with
  | refl => exact h
  | tail _ hs ih => exact ih.operates hs

theorem accounts (h : Stands input r) : r.Accounts input where
  offset_le := h.offset_le
  split := by
    rw [List.append_assoc]
    change _ ++ r.rest = input
    rw [h.rest, List.take_append_drop]
  kept := by
    -- The source holds the last bytes of the input, and what is kept lies between these and the
    -- offset.
    have hl := congrArg List.length h.rest
    have ho := h.offset_le
    simp only [Reader.rest, List.length_append, List.length_drop] at hl
    have hp : input.length - r.source.unread.length - r.offset = r.pushback.length := by omega
    rw [List.drop_take, ← h.rest, hp, Reader.rest, List.take_left]
  typed hx hv := by
    obtain ⟨bs, hb, rfl, hset⟩ := hx.stepwise.of_ok h.pieces hv
    exact ⟨bs, h.rest ▸ hb.front, rfl, hset⟩
  bytes {op n bs r'} hb := by
    rw [bytes_eq h.pieces] at hb
    by_cases hn : n ≤ r.supply
    · rw [if_pos hn] at hb
      cases hb
      refine ⟨by rw [h.rest], ?_, rfl⟩
      exact List.length_take_of_le (Nat.le_trans hn r.supply_le)
    · simp [if_neg hn] at hb
  pull hp := by
    obtain ⟨hn, hb, ho⟩ := of_pull_ok hp
    refine ⟨hn, ?_, ho⟩
    rw [← h.rest, ← hb]
    exact List.prefix_append _ _
  remaining hc := by
    obtain ⟨hcons, -, -, ho⟩ := of_remaining_ok h.pieces hc
    exact ⟨h.rest ▸ hcons, ho⟩

end Stands

/-- From a fresh reader on, whatever was done with it. -/
theorem accounts_of_reaches {s : Source} (hs : s.chunk ≠ some 0) {limits : Limits} {r : Reader}
    (h : Reaches { source := s, limits } r) : r.Accounts s.unread :=
  ((Stands.of_source hs).reaches h).accounts

namespace Sample

def drip : Source := { unread := [0, 7, 2, 97, 98, 9, 8, 5], chunk := some 2 }

def nibble (buffer : List UInt8) (_ : Nat) : Except Error Nat × Nat := (.ok 2, buffer.length)

end Sample

theorem accounts_of_reaches_drip : ∃ r : Reader,
    Reaches { source := Sample.drip } r ∧ r.offset = 7 ∧ r.pushback = [5] ∧
      r.Accounts [0, 7, 2, 97, 98, 9, 8, 5] := by
  let drained : Source := { unread := [], chunk := some 2 }
  let r₁ : Reader := { source := { Sample.drip with unread := [2, 97, 98, 9, 8, 5] }, offset := 2 }
  let r₂ : Reader := { source := drained, pushback := [98, 9, 8, 5], offset := 4 }
  let r₃ : Reader := { source := drained, pushback := [8, 5], offset := 6 }
  let r₄ : Reader := { source := drained, pushback := [5], offset := 7 }
  have h₁ : Operates { source := Sample.drip } r₁ := .typed (.number "uint16" .u16) rfl
  have hsee : Reader.remaining "tail" Sample.nibble 0 r₁ = ((.ok 2, 6), r₂) := rfl
  have h₂ : Operates r₁ r₂ := .remaining hsee
  have h₃ : Operates r₂ r₃ := .typed (.bytes "rest" 2) rfl
  have h₄ : Operates r₃ r₄ := .pull (n := 1) rfl
  have hr : Reaches { source := Sample.drip } r₄ :=
    (((Relation.ReflTransGen.single h₁).tail h₂).tail h₃).tail h₄
  exact ⟨r₄, hr, rfl, rfl, accounts_of_reaches (by decide) hr⟩

end TagWire.Reader
