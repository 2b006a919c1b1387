import TagWire.Error

/-! Sources of bytes. A source hands out what a call asks for in pieces as large as it likes, and
may break at a certain position. Filling a request takes as many calls as it takes; whatever the
pieces, the bytes come off the front. -/
namespace TagWire

structure Source where
  /-- What the source still holds. -/
  unread : List UInt8
  /-- Most bytes that one call hands out. -/
  chunk : Option Nat := none
  /-- Bytes that are handed out before every call fails. -/
  lifetime : Option Nat := none

namespace Source

/-- One call for at most `n` bytes; none come at the end. A call for nothing never fails. -/
def read (n : Nat) : Attempt Cause Source (List UInt8) := fun s =>
  if s.lifetime = some 0 ∧ n ≠ 0 then (.error .broke, s)
  else
    let size := min (min n (s.chunk.getD n)) (s.lifetime.getD n)
    let got := s.unread.take size
    (.ok got,
      { s with unread := s.unread.drop size, lifetime := s.lifetime.map (· - got.length) })

/-- Calls until `n` bytes have come, where each call may bring at least one. -/
def gather : (calls n : Nat) → Attempt Cause Source (List UInt8)
  | _, 0 => pure []
  | 0, _ + 1 => .fail .ended
  | calls + 1, n + 1 => do
    let got ← read (n + 1)
    if got.isEmpty then .fail .ended
    else return got ++ (← gather calls (n + 1 - got.length))

/-- Exactly `n` bytes; what came before a failure is gone. -/
def fill (n : Nat) : Attempt Cause Source (List UInt8) := gather n n

def exhaust : (calls : Nat) → Attempt Cause Source (List UInt8)
  | 0 => pure []
  | calls + 1 => do
    let got ← read (calls + 1)
    if got.isEmpty then return [] else return got ++ (← exhaust calls)

/-- All that is left. A source that breaks before its end gives nothing. -/
def drain : Attempt Cause Source (List UInt8) := fun s => exhaust (s.unread.length + 1) s

def advance (s : Source) (n : Nat) : Source :=
  { s with unread := s.unread.drop n, lifetime := s.lifetime.map (· - n) }

def supply (s : Source) : Nat := min s.unread.length (s.lifetime.getD s.unread.length)

def stop (s : Source) : Cause :=
  match s.lifetime with
  | none => .ended
  | some n => if n ≤ s.unread.length then .broke else .ended

theorem supply_of_ended {s : Source} (h : s.stop = .ended) : s.supply = s.unread.length := by
  unfold stop at h
  unfold supply
  split at h
  · next hl => simp [hl]
  · next n hl =>
    split at h
    · cases h
    · simp only [hl, Option.getD_some]
      omega

theorem supply_le (s : Source) : s.supply ≤ s.unread.length := Nat.min_le_left _ _

@[simp] theorem advance_zero (s : Source) : s.advance 0 = s := by
  obtain ⟨_, _, lifetime⟩ := s
  cases lifetime <;> simp [advance]

@[simp] theorem advance_advance (s : Source) (m n : Nat) :
    (s.advance m).advance n = s.advance (m + n) := by
  obtain ⟨_, _, lifetime⟩ := s
  cases lifetime <;> simp [advance]
  omega

theorem supply_advance {s : Source} {n : Nat} (h : n ≤ s.supply) :
    (s.advance n).supply = s.supply - n := by
  obtain ⟨_, _, lifetime⟩ := s
  cases lifetime with
  | none =>
    simp only [supply, advance, Option.map_none, Option.getD_none, List.length_drop] at h ⊢
    omega
  | some m =>
    simp only [supply, advance, Option.map_some, Option.getD_some, List.length_drop] at h ⊢
    omega

theorem stop_advance {s : Source} {n : Nat} (h : n ≤ s.supply) : (s.advance n).stop = s.stop := by
  obtain ⟨_, _, lifetime⟩ := s
  cases lifetime with
  | none => rfl
  | some m =>
    simp only [supply, Option.getD_some] at h
    simp only [stop, advance, Option.map_some, List.length_drop]
    congr 1
    simp only [eq_iff_iff]
    omega

theorem of_read_ok {n : Nat} {s s' : Source} {got : List UInt8} (h : read n s = (.ok got, s')) :
    got.length ≤ n ∧ got.length ≤ s.supply ∧ got = s.unread.take got.length ∧
      s' = s.advance got.length := by
  unfold read at h
  split at h
  · cases h
  · cases h
    simp only [List.length_take, advance]
    refine ⟨by omega, ?_, ?_, ?_⟩
    · unfold supply
      cases s.lifetime with
      | none =>
        simp only [Option.getD_none]
        omega
      | some m =>
        simp only [Option.getD_some]
        omega
    · rw [List.take_eq_take_iff]
      omega
    · congr 1
      rw [List.drop_eq_drop_iff]
      omega

/-- Only a source with nothing left hands out nothing, when its pieces are not empty. -/
theorem eq_nil_of_read_nil {n : Nat} {s s' : Source} (hk : s.chunk ≠ some 0)
    (h : read (n + 1) s = (.ok [], s')) : s.unread = [] := by
  unfold read at h
  split at h
  · cases h
  · next hb =>
    have ht := congrArg (fun r : Except Cause (List UInt8) × Source => r.1) h
    simp only [Except.ok.injEq, List.take_eq_nil_iff] at ht
    refine ht.resolve_left fun hz => ?_
    have hchunk : s.chunk.getD (n + 1) ≠ 0 := by
      cases hc : s.chunk with
      | none => exact Nat.succ_ne_zero n
      | some m => exact fun h0 => hk (hc.trans (congrArg some h0))
    have hlife : s.lifetime.getD (n + 1) ≠ 0 := by
      cases hl : s.lifetime with
      | none => exact Nat.succ_ne_zero n
      | some m =>
        exact fun h0 => hb ⟨hl.trans (congrArg some h0), Nat.succ_ne_zero n⟩
    omega

theorem read_cases (n : Nat) {s : Source} (hk : s.chunk ≠ some 0) :
    (s.supply = 0 ∧ s.stop = .broke ∧ read (n + 1) s = (.error .broke, s)) ∨
    (s.supply = 0 ∧ s.stop = .ended ∧ read (n + 1) s = (.ok [], s)) ∨
    ∃ k, 0 < k ∧ k ≤ n + 1 ∧ k ≤ s.supply ∧
      read (n + 1) s = (.ok (s.unread.take k), s.advance k) := by
  rcases hr : read (n + 1) s with ⟨_ | got, s'⟩
  · refine .inl ?_
    unfold read at hr
    split at hr
    · next hb =>
      cases hr
      simp [supply, stop, hb.1]
    · cases hr
  · have hb : s.lifetime ≠ some 0 := by
      intro hb
      simp [read, hb] at hr
    obtain ⟨hn, hle, hgot, rfl⟩ := of_read_ok hr
    by_cases hz : got.length = 0
    · rw [List.length_eq_zero_iff] at hz
      have hu := eq_nil_of_read_nil hk (hz ▸ hr)
      refine .inr (.inl ⟨by simp [supply, hu], ?_, by simp [hz]⟩)
      cases hl : s.lifetime with
      | none => simp [stop, hl]
      | some m =>
        have hm : m ≠ 0 := fun h0 => hb (h0 ▸ hl)
        simp [stop, hl, hu, hm]
    · exact .inr (.inr ⟨got.length, by omega, hn, hle, by rw [← hgot]⟩)

theorem gather_eq {s : Source} (hk : s.chunk ≠ some 0) {calls n : Nat} (h : n ≤ calls) :
    gather calls n s =
      if n ≤ s.supply then (.ok (s.unread.take n), s.advance n)
      else (.error s.stop, s.advance s.supply) := by
  fun_induction gather calls n generalizing s with
  | case1 => simp [Attempt.pure_apply]
  | case2 => omega
  | case3 calls n ih =>
    rcases read_cases n hk with ⟨h0, hs, hr⟩ | ⟨h0, hs, hr⟩ | ⟨k, hp, hn, hle, hr⟩
    · rw [Attempt.bind_error hr]
      simp [h0, hs]
    · rw [Attempt.bind_ok hr]
      simp [h0, hs, Attempt.fail]
    · rw [Attempt.bind_ok hr]
      have hl := s.supply_le
      have ht : (s.unread.take k).length = k := by rw [List.length_take]; omega
      have ih := ih (s.unread.take k) (s := s.advance k) hk (by omega)
      rw [ht, supply_advance hle, stop_advance hle, advance_advance, advance_advance] at ih
      rw [if_neg (by simp [List.isEmpty_iff, ← List.length_eq_zero_iff, ht]; omega), ht]
      by_cases hm : n + 1 - k ≤ s.supply - k
      · rw [if_pos hm] at ih
        rw [if_pos (by omega), Attempt.bind_ok ih, Attempt.pure_apply, advance, ← List.take_add]
        congr <;> omega
      · rw [if_neg hm] at ih
        rw [if_neg (by omega), Attempt.bind_error ih]
        congr
        omega

theorem length_of_gather_ok {s s' : Source} {calls n : Nat} {bs : List UInt8}
    (h : gather calls n s = (.ok bs, s')) : bs.length = n := by
  fun_induction gather calls n generalizing s bs with
  | case1 =>
    cases h
    rfl
  | case2 => cases h
  | case3 calls n ih =>
    rcases hr : read (n + 1) s with ⟨_ | got, s₁⟩
    · rw [Attempt.bind_error hr] at h
      cases h
    · rw [Attempt.bind_ok hr] at h
      split at h
      · cases h
      · rcases hg : gather calls (n + 1 - got.length) s₁ with ⟨_ | more, s₂⟩
        · rw [Attempt.bind_error hg] at h
          cases h
        · rw [Attempt.bind_ok hg] at h
          cases h
          have hn := (of_read_ok hr).1
          rw [List.length_append, ih got hg]
          omega

theorem fill_eq {s : Source} (hk : s.chunk ≠ some 0) (n : Nat) :
    fill n s =
      if n ≤ s.supply then (.ok (s.unread.take n), s.advance n)
      else (.error s.stop, s.advance s.supply) := gather_eq hk (Nat.le_refl n)

theorem exhaust_eq {s : Source} (hk : s.chunk ≠ some 0) {calls : Nat}
    (h : s.unread.length < calls) :
    exhaust calls s =
      (if s.stop = .ended then .ok s.unread else .error s.stop, s.advance s.supply) := by
  fun_induction exhaust calls generalizing s with
  | case1 => omega
  | case2 calls ih =>
    rcases read_cases calls hk with ⟨h0, hs, hr⟩ | ⟨h0, hs, hr⟩ | ⟨k, hp, hn, hle, hr⟩
    · rw [Attempt.bind_error hr]
      simp [h0, hs]
    · rw [Attempt.bind_ok hr]
      simp [h0, hs, eq_nil_of_read_nil hk hr, Attempt.pure_apply]
    · rw [Attempt.bind_ok hr]
      have hl := s.supply_le
      have ht : (s.unread.take k).length = k := by rw [List.length_take]; omega
      have ih := ih (s := s.advance k) hk (by simp only [advance, List.length_drop]; omega)
      rw [supply_advance hle, stop_advance hle, advance_advance] at ih
      rw [if_neg (by simp [List.isEmpty_iff, ← List.length_eq_zero_iff, ht]; omega)]
      have hd : k + (s.supply - k) = s.supply := by omega
      by_cases hm : s.stop = .ended
      · rw [if_pos hm, hd] at ih
        rw [if_pos hm, Attempt.bind_ok ih, Attempt.pure_apply, advance, List.take_append_drop]
      · rw [if_neg hm, hd] at ih
        rw [if_neg hm, Attempt.bind_error ih]

theorem drain_eq {s : Source} (hk : s.chunk ≠ some 0) :
    drain s = (if s.stop = .ended then .ok s.unread else .error s.stop, s.advance s.supply) :=
  exhaust_eq hk (Nat.lt_succ_self _)

end Source
end TagWire
