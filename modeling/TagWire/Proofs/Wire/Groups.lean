import TagWire.Proofs.Wire.Size

/-! Rows of groups, whatever they hold. A row ends in time and stays within 64 bits, or overruns, or
is cut short by the end of the input; reading goes by these cases and by nothing else. -/
namespace TagWire

namespace Size

theorem worth_append (weight : Nat) (bs cs : List UInt8) :
    worth weight (bs ++ cs) = worth weight bs + worth (weight * count bs.length) cs := by
  induction bs generalizing weight with
  | nil => simp [count_zero]
  | cons b bs ih =>
    rw [List.cons_append, worth_cons, worth_cons, ih, List.length_cons, count_succ,
      Nat.mul_assoc, Nat.add_assoc]

theorem worth_lt (bs : List UInt8) : worth 1 bs < count bs.length := by
  induction bs with
  | nil => decide
  | cons b bs ih =>
    rw [worth_cons, worth_eq_mul, List.length_cons, count_succ]
    have hb : b.toNat % 128 < 128 := Nat.mod_lt _ (by decide)
    omega

/-- The groups leave 64 bits, or there are as many as may be and none of them is the last. -/
structure Overruns (groups weight sum : Nat) (bs : List UInt8) : Prop where
  length_le : bs.length ≤ groups
  more : ∀ b ∈ bs.dropLast, 128 ≤ b
  excess : sizeBound ≤ sum + worth weight bs ∨ bs.length = groups ∧ ∀ b ∈ bs, 128 ≤ b

structure CutShort (groups weight sum : Nat) (s : List UInt8) : Prop where
  length_lt : s.length < groups
  more : ∀ b ∈ s, 128 ≤ b
  fits : sum + worth weight s < sizeBound

variable {groups weight sum : Nat} {b : UInt8} {bs s : List UInt8}

theorem Overruns.tail (h : Overruns (groups + 1) weight sum (b :: bs))
    (hs : sum + b.toNat % 128 * weight < sizeBound) :
    128 ≤ b ∧ Overruns groups (weight * 128) (sum + b.toNat % 128 * weight) bs := by
  have hlen := Nat.le_of_succ_le_succ h.length_le
  have hmore := h.more
  have hover := h.excess
  rw [worth_cons, ← Nat.add_assoc] at hover
  cases bs with
  | nil =>
    rcases hover with hover | ⟨hfull, hall⟩
    · exact absurd hs (Nat.not_lt.2 hover)
    · exact ⟨hall b List.mem_cons_self, hlen, by simp, .inr ⟨Nat.succ.inj hfull, by simp⟩⟩
  | cons c bs =>
    rw [List.dropLast_cons_cons, List.forall_mem_cons] at hmore
    refine ⟨hmore.1, hlen, hmore.2, hover.imp_right fun ⟨hfull, hall⟩ => ?_⟩
    exact ⟨Nat.succ.inj hfull, (List.forall_mem_cons.1 hall).2⟩

theorem Overruns.cons (hb : 128 ≤ b)
    (h : Overruns groups (weight * 128) (sum + b.toNat % 128 * weight) bs) :
    Overruns (groups + 1) weight sum (b :: bs) where
  length_le := Nat.succ_le_succ h.length_le
  more := by
    cases bs with
    | nil => simp
    | cons c bs => exact List.forall_mem_cons.2 ⟨hb, h.more⟩
  excess := by
    rw [worth_cons, ← Nat.add_assoc]
    refine h.excess.imp_right fun ⟨hfull, hall⟩ => ⟨congrArg Nat.succ hfull, ?_⟩
    exact List.forall_mem_cons.2 ⟨hb, hall⟩

theorem row_cases (groups weight : Nat) (hs : sum < sizeBound) (s : List UInt8) :
    (∃ bs, bs <+: s ∧ Chained bs ∧ bs.length ≤ groups ∧ sum + worth weight bs < sizeBound) ∨
      (∃ bs, bs <+: s ∧ Overruns groups weight sum bs) ∨ CutShort groups weight sum s := by
  induction groups generalizing weight sum s with
  | zero => exact .inr (.inl ⟨[], List.nil_prefix, Nat.le_refl _, by simp, .inr ⟨rfl, by simp⟩⟩)
  | succ groups ih =>
    cases s with
    | nil => exact .inr (.inr ⟨Nat.succ_pos _, by simp, hs⟩)
    | cons b s =>
      -- The byte leaves 64 bits, ends the row, or hands it on to the bytes behind it.
      by_cases hover : sizeBound ≤ sum + b.toNat % 128 * weight
      · exact .inr (.inl ⟨[b], by simp, by simp, by simp, .inl (by simpa using hover)⟩)
      · have hfits := Nat.not_le.1 hover
        by_cases hlast : b < 128
        · exact .inl ⟨[b], by simp, chained_singleton.2 hlast, by simp, by simpa using hfits⟩
        · have hmore := UInt8.not_lt.1 hlast
          rcases ih (weight * 128) hfits s with ⟨bs, hp, hc, hl, hw⟩ | ⟨bs, hp, ho⟩ | ⟨hl, hm, hw⟩
          · refine .inl ⟨b :: bs, List.cons_prefix_cons.2 ⟨rfl, hp⟩,
              (chained_cons hc.ne_nil).2 ⟨hmore, hc⟩, Nat.succ_le_succ hl, ?_⟩
            rwa [worth_cons, ← Nat.add_assoc]
          · exact .inr (.inl ⟨b :: bs, List.cons_prefix_cons.2 ⟨rfl, hp⟩, ho.cons hmore⟩)
          · refine .inr (.inr ⟨Nat.succ_lt_succ hl, List.forall_mem_cons.2 ⟨hmore, hm⟩, ?_⟩)
            rwa [worth_cons, ← Nat.add_assoc]

end Size

namespace Reader

open Size (worth Chained Overruns CutShort)

variable {op : String} {start groups weight sum : Nat} {bs : List UInt8} {r r' : Reader}

theorem byte_of_nil (hr : r.Ends) (h : r.rest = []) (op : String) :
    ∃ r', byte op r = (.error (.io op r.offset .ended), r') := by
  have hb := bytes_eq hr.pieces op 1
  rw [if_neg (by rw [hr.supply, h]; decide), hr.ended] at hb
  exact ⟨_, Attempt.bind_error hb⟩

theorem byte_of_cons (hr : r.Ends) {b : UInt8} {s : List UInt8} (h : r.rest = b :: s)
    (op : String) :
    byte op r = (.ok b, r.advance 1) ∧ (r.advance 1).Ends ∧ (r.advance 1).rest = s := by
  have hs : r.Starts [b] := hr.starts (by simp [h])
  obtain ⟨r', hb, hr'⟩ := takes_byte (L := r.limits) op b r.offset r rfl rfl hs
  have hr'' : r' = r.advance 1 := hr'
  subst hr''
  exact ⟨hb, hr.advance hs.enough, by simp [h]⟩

/-- A row that overruns is given up at the first group that leaves 64 bits, or after as many as may
be. -/
theorem settles_overruns (op : String) (start : Nat) (hs : sum < sizeBound)
    (h : Overruns groups weight sum bs) :
    ∃ n ≤ bs.length, (n = groups ∨ sizeBound ≤ sum + worth weight (bs.take n)) ∧
      ∀ L p, Settles L p (sizeGroups op start groups weight sum) (bs.take n)
        (.error (.sizeOverflow op start)) := by
  have hfail {x : Reading Nat} (hx : x = .fail (.sizeOverflow op start)) (L : Limits) (p : Nat) :
      Settles L p x [] (.error (.sizeOverflow op start)) :=
    Settles.of_apply fun r _ _ => ⟨r, by rw [hx]; rfl, rfl⟩
  induction groups generalizing weight sum bs with
  | zero => exact ⟨0, Nat.zero_le _, .inl rfl, hfail rfl⟩
  | succ groups ih =>
    cases bs with
    | nil =>
      rcases h.excess with hover | ⟨hfull, -⟩
      · exact absurd hs (Nat.not_lt.2 hover)
      · cases hfull
    | cons b bs =>
      by_cases hover : sizeBound ≤ sum + b.toNat % 128 * weight
      · refine ⟨1, by simp, .inr (by simpa using hover), fun L p => ?_⟩
        rw [sizeGroups]
        show Settles L p _ ([b] ++ []) _
        exact (takes_byte op b p).bind (hfail (if_pos hover) L _)
      · obtain ⟨hmore, htail⟩ := h.tail (Nat.not_le.1 hover)
        obtain ⟨n, hn, hend, hset⟩ := ih (Nat.not_le.1 hover) htail
        refine ⟨n + 1, Nat.succ_le_succ hn, ?_, fun L p => ?_⟩
        · rw [List.take_succ_cons, Size.worth_cons, ← Nat.add_assoc]
          exact hend.imp_left (congrArg Nat.succ)
        · rw [sizeGroups]
          show Settles L p _ ([b] ++ bs.take n) _
          refine (takes_byte op b p).bind ?_
          rw [if_neg hover, if_neg (UInt8.not_lt.2 hmore)]
          exact hset L _

theorem groups_of_cutShort (op : String) (start : Nat) (hr : r.Ends)
    (h : CutShort groups weight sum r.rest) : ∃ r', sizeGroups op start groups weight sum r =
      (.error (.io op (r.offset + r.rest.length) .ended), r') := by
  induction groups generalizing weight sum r with
  | zero => exact absurd h.length_lt (Nat.not_lt_zero _)
  | succ groups ih =>
    obtain ⟨hl, hm, hs⟩ := h
    rw [sizeGroups]
    rcases hrest : r.rest with _ | ⟨b, s⟩
    · obtain ⟨r', hb⟩ := byte_of_nil hr hrest op
      exact ⟨r', Attempt.bind_error hb⟩
    · obtain ⟨hb, hends, rfl⟩ := byte_of_cons hr hrest op
      rw [hrest] at hl hm hs
      rw [Size.worth_cons, ← Nat.add_assoc] at hs
      rw [List.forall_mem_cons] at hm
      obtain ⟨r', h⟩ := ih hends ⟨Nat.lt_of_succ_lt_succ hl, hm.2, hs⟩
      have hfits : ¬ sizeBound ≤ sum + b.toNat % 128 * weight := by omega
      have hend : (r.advance 1).offset + (r.advance 1).rest.length =
          r.offset + (b :: (r.advance 1).rest).length := by
        rw [List.length_cons, Nat.add_comm _ 1, ← Nat.add_assoc]
        rfl
      rw [Attempt.bind_ok hb, if_neg hfits, if_neg (UInt8.not_lt.2 hm.1), h, hend]
      exact ⟨r', rfl⟩

theorem groups_of_chained (op : String) (start : Nat) (hr : r.Ends) (hp : bs <+: r.rest)
    (hc : Chained bs) (hl : bs.length ≤ groups) (hs : sum + worth weight bs < sizeBound) :
    sizeGroups op start groups weight sum r =
      (.ok (sum + worth weight bs), r.advance bs.length) := by
  obtain ⟨r', h, rfl⟩ := takes_groups op start hc hl hs r.offset r rfl rfl (hr.starts hp)
  exact h

theorem groups_of_overruns (op : String) (start : Nat) (hr : r.Ends) (hp : bs <+: r.rest)
    (hs : sum < sizeBound) (h : Overruns groups weight sum bs) :
    ∃ n ≤ bs.length, (n = groups ∨ sizeBound ≤ sum + worth weight (bs.take n)) ∧
      sizeGroups op start groups weight sum r = (.error (.sizeOverflow op start), r.advance n) := by
  obtain ⟨n, hn, hend, hset⟩ := settles_overruns op start hs h
  have hfront := hr.starts ((List.take_prefix n bs).trans hp)
  obtain ⟨r', h, hr'⟩ := hset r.limits r.offset r rfl rfl hfront
  simp only [HasReader.reader_self, List.length_take_of_le hn] at hr'
  exact ⟨n, hn, hend, hr' ▸ h⟩

end Reader

end TagWire
