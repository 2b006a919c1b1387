import TagWire.Stream.Source

/-! Reading with a position. A reader counts the bytes it has consumed, and keeps bytes that were
pulled from the source and handed back; those come first in later reads. -/
namespace TagWire

/-- Lengths that are checked before anything of that length is read. -/
structure Limits where
  maxText : Nat := 16777216
  maxItems : Nat := 1048576

structure Reader where
  source : Source
  limits : Limits := {}
  /-- Pulled from the source but not consumed. -/
  pushback : List UInt8 := []
  /-- Bytes consumed. -/
  offset : Nat := 0

abbrev Reading (α : Type) := Attempt Error Reader α

namespace Reader

def rest (r : Reader) : List UInt8 := r.pushback ++ r.source.unread

/-- Exactly `n` bytes. A failed read has eaten what there was, yet the position stays. -/
def bytes (op : String) (n : Nat) : Reading (List UInt8) := fun r =>
  let front := r.pushback.take n
  match Source.fill (n - front.length) r.source with
  | (.ok back, source) =>
    (.ok (front ++ back),
      { r with source, pushback := r.pushback.drop n, offset := r.offset + n })
  | (.error cause, source) =>
    (.error (.io op r.offset cause), { r with source, pushback := r.pushback.drop n })

/-- The longest buffer that can be asked for: half of what 64 bits address. -/
def capacity : Nat := 9223372036854775807

/-- Exactly `n` bytes into a buffer of their own, which is made before anything is read. -/
def buffer (op : String) (n : Nat) : Reading (List UInt8) :=
  if n ≤ capacity then bytes op n else .fail (.unallocatable n)

def byte (op : String) : Reading UInt8 := (·.headD 0) <$> bytes op 1

def position : Reading Nat := .view (·.offset)

/-- At most `n` bytes in one go: handed-back bytes alone, or else one call of the source. -/
def pull (n : Nat) : Attempt Cause Reader (List UInt8) := fun r =>
  if r.pushback.isEmpty then
    match r.source.read n with
    | (.ok got, source) => (.ok got, { r with source, offset := r.offset + got.length })
    | (.error cause, source) => (.error cause, { r with source })
  else
    let got := r.pushback.take n
    (.ok got, { r with pushback := r.pushback.drop n, offset := r.offset + got.length })

/-- Shows all that is left to a consumer, which says how many bytes it used; the others are handed
back. When the consumer refuses or claims too much, what the source held is gone. -/
def remaining {α : Type} (op : String) (consume : List UInt8 → α → Except Error Nat × α) :
    InPlace Error Reader Nat α := fun a r =>
  match r.source.drain with
  | (.error cause, source) => ((.error (.io op r.offset cause), a), { r with source })
  | (.ok tail, source) =>
    let buffer := r.pushback ++ tail
    match consume buffer a with
    | (.error e, a) => ((.error e, a), { r with source })
    | (.ok used, a) =>
      if buffer.length < used then
        ((.error (.overConsumed op used buffer.length), a), { r with source })
      else
        ((.ok used, a),
          { r with source, pushback := buffer.drop used, offset := r.offset + used })

def supply (r : Reader) : Nat := r.pushback.length + r.source.supply

def advance (r : Reader) (n : Nat) : Reader :=
  { r with
    source := r.source.advance (n - r.pushback.length)
    pushback := r.pushback.drop n
    offset := r.offset + n }

@[simp] theorem rest_advance (r : Reader) (n : Nat) : (r.advance n).rest = r.rest.drop n := by
  simp [rest, advance, Source.advance, List.drop_append]

@[simp] theorem advance_zero (r : Reader) : r.advance 0 = r := by simp [advance]

@[simp] theorem advance_advance (r : Reader) (m n : Nat) :
    (r.advance m).advance n = r.advance (m + n) := by
  simp only [advance, Source.advance_advance, List.length_drop, List.drop_drop]
  congr 1
  · congr 1
    omega
  · omega

theorem supply_advance {r : Reader} {n : Nat} (h : n ≤ r.supply) :
    (r.advance n).supply = r.supply - n := by
  unfold supply at h ⊢
  have hs := Source.supply_advance (s := r.source) (n := n - r.pushback.length) (by omega)
  simp only [advance, hs, List.length_drop]
  omega

theorem stop_advance {r : Reader} {n : Nat} (h : n ≤ r.supply) :
    (r.advance n).source.stop = r.source.stop := by
  unfold supply at h
  exact Source.stop_advance (by omega)

theorem supply_of_ended {r : Reader} (h : r.source.stop = .ended) : r.supply = r.rest.length := by
  rw [supply, Source.supply_of_ended h, rest, List.length_append]

theorem buffer_of_le {n : Nat} (h : n ≤ capacity) (op : String) : buffer op n = bytes op n :=
  if_pos h

theorem buffer_of_lt {n : Nat} (h : capacity < n) (op : String) :
    buffer op n = .fail (.unallocatable n) := if_neg (Nat.not_le.2 h)

/-- A read takes what it wants off the front, or all there is without moving the position. -/
theorem bytes_eq {r : Reader} (hk : r.source.chunk ≠ some 0) (op : String) (n : Nat) :
    bytes op n r =
      if n ≤ r.supply then (.ok (r.rest.take n), r.advance n)
      else
        (.error (.io op r.offset r.source.stop),
          { r.advance r.supply with offset := r.offset }) := by
  have hf := Source.fill_eq hk (n - (r.pushback.take n).length)
  unfold bytes
  dsimp only
  have hm : n - min n r.pushback.length = n - r.pushback.length := by omega
  rw [hf, List.length_take, hm]
  by_cases hn : n - r.pushback.length ≤ r.source.supply
  · have hr : n ≤ r.supply := by
      unfold supply
      omega
    rw [if_pos hn, if_pos hr]
    simp [rest, advance, List.take_append]
  · have hr : ¬ n ≤ r.supply := by
      unfold supply
      omega
    rw [if_neg hn, if_neg hr]
    simp only [advance, supply, Nat.add_sub_cancel_left]
    rw [List.drop_eq_nil_of_le (by omega), List.drop_eq_nil_of_le (by omega)]

theorem of_pull_ok {n : Nat} {r r' : Reader} {bs : List UInt8} (h : pull n r = (.ok bs, r')) :
    bs.length ≤ n ∧ bs ++ r'.rest = r.rest ∧ r'.offset = r.offset + bs.length := by
  unfold pull at h
  split at h
  · next hp =>
    split at h
    · next got source hs =>
      obtain ⟨hn, _, hgot, rfl⟩ := Source.of_read_ok hs
      cases h
      refine ⟨hn, ?_, rfl⟩
      rw [List.isEmpty_iff] at hp
      simp only [rest, hp, Source.advance, List.nil_append]
      conv => lhs; lhs; rw [hgot]
      exact List.take_append_drop ..
    · cases h
  · cases h
    refine ⟨List.length_take_le _ _, ?_, rfl⟩
    simp [rest, ← List.append_assoc]

theorem of_remaining_ok {α : Type} {op : String}
    {consume : List UInt8 → α → Except Error Nat × α} {a a' : α} {r r' : Reader} {used : Nat}
    (hk : r.source.chunk ≠ some 0) (h : remaining op consume a r = ((.ok used, a'), r')) :
    consume r.rest a = (.ok used, a') ∧ used ≤ r.rest.length ∧ r'.rest = r.rest.drop used ∧
      r'.offset = r.offset + used := by
  unfold remaining at h
  split at h
  · cases h
  · next tail source hd =>
    rw [Source.drain_eq hk] at hd
    obtain ⟨rfl, rfl, hs⟩ : tail = r.source.unread ∧ source = r.source.advance r.source.supply ∧
        (r.source.advance r.source.supply).unread = [] := by
      split at hd
      · next he =>
        cases hd
        exact ⟨rfl, rfl, by simp [Source.advance, Source.supply_of_ended he]⟩
      · cases hd
    dsimp only at h
    split at h
    · cases h
    · next hc =>
      split at h
      · cases h
      · next hu =>
        cases h
        exact ⟨hc, by simpa [rest] using hu, by simp [rest, hs], rfl⟩

end Reader

end TagWire
