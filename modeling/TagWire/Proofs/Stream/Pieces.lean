import TagWire.Proofs.Stream.Writing

/-! Primitive writes. A step that writes in no other way does on every sink what its primitive
writes do there one after the other; so the list of these tells what becomes of the step on a sink
that runs full. -/
namespace TagWire

open HasWriter (writer)

/-- A primitive write: its operation, and the bytes that the sink takes as a whole or not. -/
structure Piece where
  op : String
  bytes : List UInt8

namespace Piece

def flat (ps : List Piece) : List UInt8 := ps.flatMap bytes

@[simp] theorem flat_nil : flat [] = [] := rfl

@[simp] theorem flat_cons (p : Piece) (ps : List Piece) : flat (p :: ps) = p.bytes ++ flat ps := rfl

end Piece

open Piece (flat)

namespace Writer

variable {op : String} {piece : List UInt8} {ps : List Piece} {w w' : Writer} {room n : Nat}

def pieces : List Piece → Writing Unit
  | [] => pure ()
  | p :: ps => do
    let _ ← bytes p.op p.bytes
    pieces ps

theorem pieces_cons (p : Piece) (ps : List Piece) :
    pieces (p :: ps) = bytes p.op p.bytes >>= fun _ => pieces ps := rfl

theorem pieces_append (ps qs : List Piece) :
    pieces (ps ++ qs) = pieces ps >>= fun _ => pieces qs := by
  induction ps with
  | nil => rfl
  | cons p ps ih => rw [List.cons_append, pieces_cons, pieces_cons, ih, bind_assoc]

theorem bytes_nil (op : String) (w : Writer) : bytes op [] w = (.ok 0, w) := by
  unfold bytes
  rw [Sink.writeAll, Sink.pour_nil]
  rfl

theorem of_bytes_ok (h : bytes op piece w = (.ok n, w')) :
    n = piece.length ∧ w'.offset = w.offset + piece.length := by
  unfold bytes at h
  split at h
  · cases h
    exact ⟨rfl, rfl⟩
  · cases h

theorem offset_of_pieces (h : pieces ps w = (.ok (), w')) :
    w'.offset = w.offset + (flat ps).length := by
  induction ps generalizing w with
  | nil =>
    cases h
    rfl
  | cons p ps ih =>
    rw [pieces_cons] at h
    rcases hp : bytes p.op p.bytes w with ⟨e | n, w₁⟩
    · rw [Attempt.bind_error hp] at h
      cases h
    · rw [Attempt.bind_ok hp] at h
      rw [ih h, (of_bytes_ok hp).2, Piece.flat_cons, List.length_append, Nat.add_assoc]

theorem pieces_of_fits (h : ∀ n ∈ w.sink.room, (flat ps).length ≤ n) :
    pieces ps w = (.ok (),
      { sink := ⟨w.sink.taken ++ flat ps, w.sink.room.map (· - (flat ps).length)⟩
        offset := w.offset + (flat ps).length }) := by
  induction ps generalizing w with
  | nil =>
    obtain ⟨⟨taken, room⟩, offset⟩ := w
    cases room <;> simp [pieces, Attempt.pure_apply]
  | cons p ps ih =>
    simp only [Piece.flat_cons, List.length_append] at h ⊢
    have hp : ∀ n ∈ w.sink.room, p.bytes.length ≤ n := fun n hn => by
      have := h n hn
      omega
    rw [pieces_cons, Attempt.bind_ok (bytes_of_fits hp), ih]
    · simp [Function.comp_def, Nat.sub_sub, Nat.add_assoc]
    · intro n hn
      obtain ⟨m, hm, rfl⟩ := Option.map_eq_some_iff.1 hn
      have := h m hm
      omega

theorem pieces_of_full (h : room < (flat ps).length) (taken : List UInt8) (offset : Nat) :
    ∃ before p after,
    ps = before ++ p :: after ∧ (flat before).length ≤ room ∧
      room < (flat before).length + p.bytes.length ∧
      pieces ps ⟨⟨taken, some room⟩, offset⟩ =
        (.error (.io p.op (offset + (flat before).length) .full),
          ⟨⟨taken ++ (flat ps).take room, some 0⟩, offset + (flat before).length⟩) := by
  induction ps generalizing taken room offset with
  | nil => exact absurd h (Nat.not_lt_zero _)
  | cons p ps ih =>
    rw [pieces_cons]
    by_cases hp : p.bytes.length ≤ room
    · have hfits : ∀ n ∈ (⟨taken, some room⟩ : Sink).room, p.bytes.length ≤ n := by
        simpa using hp
      rw [Attempt.bind_ok (bytes_of_fits hfits)]
      rw [Piece.flat_cons, List.length_append] at h
      obtain ⟨before, q, after, rfl, hle, hlt, hx⟩ :=
        @ih (room - p.bytes.length) (by omega) (taken ++ p.bytes) (offset + p.bytes.length)
      refine ⟨p :: before, q, after, rfl, ?_, ?_, ?_⟩
      · rw [Piece.flat_cons, List.length_append]
        omega
      · rw [Piece.flat_cons, List.length_append]
        omega
      · refine hx.trans ?_
        rw [Piece.flat_cons, Piece.flat_cons, List.length_append, List.take_append,
          List.take_of_length_le hp]
        simp only [Nat.add_assoc, List.append_assoc]
    · have hlt : room < p.bytes.length := by omega
      refine ⟨[], p, ps, rfl, Nat.zero_le _, by simpa using hlt, ?_⟩
      rw [Attempt.bind_error (bytes_of_full hlt), Piece.flat_cons,
        List.take_append_of_le_length (Nat.le_of_lt hlt)]
      rfl

end Writer

variable {σ α β : Type} [HasWriter σ] {x : Attempt Error σ α} {f : α → Attempt Error σ β}
  {start : Nat} {ps qs : List Piece} {a : α} {e : Error}

/-- From position `start` on, whatever the sink, the step does what the writes `ps` do; it ends in
`result`, or in the error of the first write that fails. -/
def Spells (x : Attempt Error σ α) (start : Nat) (ps : List Piece) (result : Except Error α) :
    Prop :=
  ∀ s, (writer s).offset = start → ∃ s',
    x s = ((Writer.pieces ps (writer s)).1 >>= fun _ => result, s') ∧
      writer s' = (Writer.pieces ps (writer s)).2

/-- The step writes in no other way than by primitive writes; which these are may hang on the
position but not on the sink. -/
def Piecewise (x : Attempt Error σ α) : Prop := ∀ start, ∃ ps result, Spells x start ps result

namespace Spells

theorem bind {result : Except Error β} (hx : Spells x start ps (.ok a))
    (hf : Spells (f a) (start + (flat ps).length) qs result) :
    Spells (x >>= f) start (ps ++ qs) result := by
  intro s ho
  obtain ⟨s₁, h₁, hw₁⟩ := hx s ho
  rw [Writer.pieces_append]
  rcases hp : Writer.pieces ps (writer s) with ⟨e | _, w⟩
  · rw [hp] at h₁ hw₁
    rw [Attempt.bind_error hp]
    exact ⟨s₁, Attempt.bind_error h₁, hw₁⟩
  · rw [hp] at h₁ hw₁
    obtain rfl : writer s₁ = w := hw₁
    rw [Attempt.bind_ok hp, Attempt.bind_ok h₁]
    exact hf s₁ (by rw [Writer.offset_of_pieces hp, ho])

theorem bind_error (hx : Spells x start ps (.error e)) : Spells (x >>= f) start ps (.error e) := by
  intro s ho
  obtain ⟨s₁, h₁, hw₁⟩ := hx s ho
  refine ⟨s₁, ?_, hw₁⟩
  rcases hp : Writer.pieces ps (writer s) with ⟨e' | _, w⟩
  · rw [hp] at h₁
    exact Attempt.bind_error h₁
  · rw [hp] at h₁
    exact Attempt.bind_error h₁

end Spells

namespace Piecewise

theorem idle (g : Nat → Except Error α)
    (h : ∀ s, ∃ s', x s = (g (writer s).offset, s') ∧ writer s' = writer s) : Piecewise x := by
  intro start
  refine ⟨[], g start, ?_⟩
  rintro s rfl
  exact h s

theorem pure (a : α) : Piecewise (pure a : Attempt Error σ α) :=
  idle (fun _ => .ok a) fun s => ⟨s, rfl, rfl⟩

theorem fail (e : Error) : Piecewise (Attempt.fail e : Attempt Error σ α) :=
  idle (fun _ => .error e) fun s => ⟨s, rfl, rfl⟩

theorem lift (result : Except Error α) : Piecewise (Attempt.lift result : Attempt Error σ α) :=
  idle (fun _ => result) fun s => ⟨s, rfl, rfl⟩

theorem update {g : σ → σ} (hg : ∀ s, writer (g s) = writer s) : Piecewise (Attempt.update g) :=
  idle (fun _ => .ok ()) fun s => ⟨g s, rfl, hg s⟩

theorem bind (hx : Piecewise x) (hf : ∀ a, Piecewise (f a)) : Piecewise (x >>= f) := by
  intro start
  obtain ⟨ps, result, hx⟩ := hx start
  cases result with
  | error e => exact ⟨ps, .error e, hx.bind_error⟩
  | ok a =>
    obtain ⟨qs, result, hf⟩ := hf a (start + (flat ps).length)
    exact ⟨ps ++ qs, result, hx.bind hf⟩

theorem lift_bind {result : Except Error α} (hf : ∀ a, result = .ok a → Piecewise (f a)) :
    Piecewise (Attempt.lift result >>= f) := by
  cases result with
  | error e => exact fail e
  | ok a => exact hf a rfl

theorem forEach {f : β → Attempt Error σ Unit} {bs : List β} (h : ∀ b ∈ bs, Piecewise (f b)) :
    Piecewise (Attempt.forEach f bs : Attempt Error σ Unit) := by
  induction bs with
  | nil => exact pure ()
  | cons b bs ih =>
    rw [Attempt.forEach_cons]
    exact (h b List.mem_cons_self).bind fun _ => ih fun b hb => h b (List.mem_cons_of_mem _ hb)

end Piecewise

theorem Writer.piecewise_bytes (op : String) (piece : List UInt8) : Piecewise (bytes op piece) := by
  intro start
  refine ⟨[⟨op, piece⟩], .ok piece.length, fun w _ => ⟨(bytes op piece w).2, ?_⟩⟩
  rw [HasWriter.writer_self, HasWriter.writer_self, pieces_cons]
  rcases h : bytes op piece w with ⟨e | n, w'⟩
  · rw [Attempt.bind_error h]
    exact ⟨rfl, rfl⟩
  · rw [Attempt.bind_ok h, (of_bytes_ok h).1]
    exact ⟨rfl, rfl⟩

end TagWire
