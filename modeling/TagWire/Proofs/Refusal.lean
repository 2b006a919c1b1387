import TagWire.Proofs.Stream.Alike

/-! Consumers that turn down what they are shown. The call fails and the position stays, but the
bytes that were pulled from the source to be shown are not handed back: only the earlier pushback is
left to read. -/
namespace TagWire.Reader

variable {α : Type} {r : Reader} {op : String} {consume : List UInt8 → α → Except Error Nat × α}
  {a : α}

/-- The failure that an answer leads to, of a consumer that was shown so many bytes: its own, or
that it claims more than there are. -/
def refusal (op : String) (available : Nat) : Except Error Nat → Option Error
  | .error e => some e
  | .ok used => if available < used then some (.overConsumed op used available) else none

def spent (r : Reader) : Reader := { r with source := r.source.advance r.source.supply }

def cutOff (r : Reader) : Reader := { r with source := { unread := [] } }

theorem rest_cutOff (r : Reader) : r.cutOff.rest = r.pushback := List.append_nil _

/-- No read tells a reader whose source was emptied in vain from one whose source had nothing. -/
theorem Ends.alike_spent (h : r.Ends) : r.spent.Alike r.cutOff where
  limits := rfl
  offset := rfl
  rest := by
    have hgone : r.spent.source.unread = [] := unread_used h 0
    rw [rest_cutOff, rest, hgone, List.append_nil]
    rfl
  ends := ⟨h.pieces, (h.used 0).ended⟩
  ends' := ⟨by simp [cutOff], rfl⟩

theorem remaining_eq_of_answer (h : r.Ends) {answer : Except Error Nat} {a' : α}
    (hc : consume r.rest a = (answer, a')) :
    remaining op consume a r = match refusal op r.rest.length answer with
      | some e => ((.error e, a'), r.spent)
      | none => ((answer, a'), r.used (answer.toOption.getD 0)) := by
  rw [remaining_eq h, hc]
  cases answer with
  | error e => rfl
  | ok n =>
    unfold refusal
    by_cases hn : r.rest.length < n
    · simp only [if_pos hn]
      rfl
    · simp only [if_neg hn]
      rfl

/-- A call fails exactly when the consumer turns down what it is shown, and says why. Then neither
position nor pushback have moved, and what the source still held can not be read any more: all that
could be read before can be read after only where the source held nothing. -/
theorem remaining_of_refusal (h : r.Ends) (op : String)
    (consume : List UInt8 → α → Except Error Nat × α) (a : α) (e : Error) :
    ((remaining op consume a r).1.1 = .error e ↔
      refusal op r.rest.length (consume r.rest a).1 = some e) ∧
    (refusal op r.rest.length (consume r.rest a).1 = some e → ∃ r' : Reader,
      remaining op consume a r = ((.error e, (consume r.rest a).2), r') ∧
      r'.offset = r.offset ∧ r'.pushback = r.pushback ∧ r'.rest = r.pushback ∧
      r'.Alike r.cutOff ∧ (r'.rest = r.rest ↔ r.source.unread = [])) := by
  rcases hc : consume r.rest a with ⟨answer, a'⟩
  have heq : remaining op consume a r = _ := remaining_eq_of_answer h hc
  cases hwhy : refusal op r.rest.length answer with
  | none =>
    rw [hwhy] at heq
    refine ⟨⟨fun hfail => ?_, nofun⟩, nofun⟩
    -- An answer that is not turned into a failure is a count.
    cases answer with
    | error e' => cases hwhy
    | ok n => rw [heq] at hfail; cases hfail
  | some e' =>
    rw [hwhy] at heq
    rw [heq]
    have hrest : r.spent.rest = r.pushback := h.alike_spent.rest.trans r.rest_cutOff
    refine ⟨by simp, fun he => ?_⟩
    obtain rfl : e' = e := Option.some.inj he
    refine ⟨r.spent, rfl, rfl, rfl, hrest, h.alike_spent, ?_⟩
    rw [hrest, rest, List.self_eq_append_right]

namespace Sample

def halfway : Reader :=
  { source := { unread := [1, 2, 3], chunk := some 2 }, pushback := [0], offset := 5 }

def grasp (buffer : List UInt8) (_ : Unit) : Except Error Nat × Unit :=
  (.ok (buffer.length + 1), ())

def refuse (_ : List UInt8) (_ : Unit) : Except Error Nat × Unit :=
  (.error (.custom "consumer refused"), ())

end Sample

theorem remaining_of_refusal_halfway : ∃ r : Reader,
    remaining "tail" Sample.grasp () Sample.halfway = ((.error (.overConsumed "tail" 5 4), ()), r) ∧
    r.offset = 5 ∧ Sample.halfway.rest = [0, 1, 2, 3] ∧ r.rest = [0] := by
  have h : Sample.halfway.Ends := ⟨by decide, rfl⟩
  obtain ⟨r, hr, ho, -, hrest, -, -⟩ :=
    (remaining_of_refusal h "tail" Sample.grasp () (.overConsumed "tail" 5 4)).2 rfl
  exact ⟨r, hr, ho, rfl, hrest⟩

/-- It is not so that a refusal leaves all that could be read before. -/
theorem rest_lost_of_refusal : ¬ ∀ (r r' : Reader) (op : String)
    (consume : List UInt8 → Unit → Except Error Nat × Unit) (e : Error), r.Ends →
    remaining op consume () r = ((.error e, ()), r') → r'.rest = r.rest := by
  intro hkeeps
  have hkept := hkeeps Sample.halfway
    { Sample.halfway with source := Sample.halfway.source.advance 3 } "tail" Sample.refuse
    (.custom "consumer refused") ⟨by decide, rfl⟩ rfl
  revert hkept
  decide

end TagWire.Reader
