import TagWire.Error

/-! Writing with a position. A sink takes bytes until it is full; the position moves only when a
whole piece was taken. -/
namespace TagWire

structure Sink where
  /-- Everything taken so far. -/
  taken : List UInt8 := []
  /-- Bytes that still fit. -/
  room : Option Nat := none

namespace Sink

/-- One call: takes what fits, at least one byte of a piece, and says how many. -/
def write (piece : List UInt8) : Attempt Cause Sink Nat := fun s =>
  if s.room = some 0 then (.error .full, s)
  else
    let n := min piece.length (s.room.getD piece.length)
    (.ok n, { taken := s.taken ++ piece.take n, room := s.room.map (· - n) })

def pour : (calls : Nat) → List UInt8 → Attempt Cause Sink Unit
  | _, [] => pure ()
  | 0, _ :: _ => .fail .full
  | calls + 1, b :: piece => do
    let n ← write (b :: piece)
    pour calls ((b :: piece).drop n)

def writeAll (piece : List UInt8) : Attempt Cause Sink Unit := pour piece.length piece

@[simp] theorem pour_nil (calls : Nat) : pour calls [] = pure () := by cases calls <;> rfl

theorem writeAll_of_fits {piece : List UInt8} {s : Sink} (h : ∀ n ∈ s.room, piece.length ≤ n) :
    writeAll piece s =
      (.ok (), { taken := s.taken ++ piece, room := s.room.map (· - piece.length) }) := by
  obtain ⟨taken, room⟩ := s
  cases piece with
  | nil => cases room <;> simp [writeAll, Attempt.pure_apply]
  | cons b piece =>
    have hw : write (b :: piece) ⟨taken, room⟩ = (.ok (b :: piece).length,
        { taken := taken ++ b :: piece, room := room.map (· - (b :: piece).length) }) := by
      unfold write
      cases room with
      | none => simp
      | some n =>
        have hn : piece.length + 1 ≤ n := h n rfl
        have h0 : n ≠ 0 := by omega
        simp [h0, Nat.min_eq_left hn]
    rw [writeAll, List.length_cons, pour, Attempt.bind_ok hw, List.drop_length, pour_nil]
    rfl

theorem writeAll_of_full {piece taken : List UInt8} {n : Nat} (h : n < piece.length) :
    writeAll piece ⟨taken, some n⟩ = (.error .full, ⟨taken ++ piece.take n, some 0⟩) := by
  have full : ∀ {calls : Nat} {piece taken : List UInt8}, 0 < piece.length →
      pour calls piece ⟨taken, some 0⟩ = (.error .full, ⟨taken, some 0⟩) := by
    intro calls piece taken hp
    cases piece with
    | nil => simp at hp
    | cons b piece =>
      cases calls with
      | zero => rfl
      | succ calls => rw [pour, Attempt.bind_error (by rfl)]
  by_cases h0 : n = 0
  · subst h0
    rw [writeAll, full h, List.take_zero, List.append_nil]
  · cases piece with
    | nil => simp at h
    | cons b piece =>
      have hw : write (b :: piece) ⟨taken, some n⟩ =
          (.ok n, ⟨taken ++ (b :: piece).take n, some 0⟩) := by
        have hm : min (piece.length + 1) n = n := Nat.min_eq_right (Nat.le_of_lt h)
        simp [write, h0, hm]
      rw [writeAll, List.length_cons, pour, Attempt.bind_ok hw, full]
      rw [List.length_drop]
      omega

end Sink

structure Writer where
  sink : Sink := {}
  /-- Bytes written. -/
  offset : Nat := 0

abbrev Writing (α : Type) := Attempt Error Writer α

namespace Writer

/-- All of a piece, as one primitive write; gives its length. -/
def bytes (op : String) (piece : List UInt8) : Writing Nat := fun w =>
  match w.sink.writeAll piece with
  | (.ok (), sink) => (.ok piece.length, { sink, offset := w.offset + piece.length })
  | (.error cause, sink) => (.error (.io op w.offset cause), { w with sink })

def push (piece : List UInt8) : Attempt Cause Writer Nat := fun w =>
  match w.sink.write piece with
  | (.ok n, sink) => (.ok n, { sink, offset := w.offset + n })
  | (.error cause, sink) => (.error cause, { w with sink })

theorem bytes_of_fits {op : String} {piece : List UInt8} {w : Writer}
    (h : ∀ n ∈ w.sink.room, piece.length ≤ n) :
    bytes op piece w = (.ok piece.length,
      { sink := ⟨w.sink.taken ++ piece, w.sink.room.map (· - piece.length)⟩
        offset := w.offset + piece.length }) := by
  unfold bytes
  rw [Sink.writeAll_of_fits h]

theorem bytes_of_full {op : String} {piece taken : List UInt8} {n offset : Nat}
    (h : n < piece.length) :
    bytes op piece ⟨⟨taken, some n⟩, offset⟩ =
      (.error (.io op offset .full), ⟨⟨taken ++ piece.take n, some 0⟩, offset⟩) := by
  unfold bytes
  rw [Sink.writeAll_of_full h]

end Writer

end TagWire
