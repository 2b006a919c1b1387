import TagWire.Text.Case

/-! Text that is in lower case stays as it is when it is put in lower case again. -/
namespace TagWire.Text

/-- Whether the run has no letter among `lo`, `lo + step`, … `hi`: the two lie apart, or they
alternate. -/
def CaseRun.Misses (run : CaseRun) (lo hi step : Nat) : Bool :=
  Nat.blt hi run.first || Nat.blt run.last lo ||
    run.step == 2 && (step == 2 || lo == hi) && (lo - run.first) % 2 == 1

theorem CaseRun.covers_of_misses {run : CaseRun} {lo hi step : Nat}
    (h : run.Misses lo hi step = true) {c : Char} (hlo : lo ≤ c.toNat) (hhi : c.toNat ≤ hi)
    (hstep : (c.toNat - lo) % step = 0) : run.covers c = false := by
  simp only [Misses, Bool.or_eq_true, Bool.and_eq_true, Nat.blt_eq, beq_iff_eq] at h
  simp only [covers, Bool.and_eq_false_iff, decide_eq_false_iff_not, beq_eq_false_iff_ne]
  rcases h with (h | h) | ⟨⟨h2, rfl | rfl⟩, h⟩
  · omega
  · omega
  · rw [h2]
    omega
  · rw [h2]
    omega

/-- The capital dotted I, whose lower case no run gives. -/
def dottedI : CaseRun := ⟨0x130, 0x130, 1, 0⟩

theorem covers_dottedI (c : Char) : dottedI.covers c = decide (c.toNat = 0x130) := by
  rw [Bool.eq_iff_iff]
  simp only [CaseRun.covers, Bool.and_eq_true, decide_eq_true_eq]
  simp only [dottedI, Nat.mod_one, beq_self_eq_true, and_true]
  omega

def Lower (c : Char) : Prop := ∀ run ∈ dottedI :: caseRuns, run.covers c = false

instance (c : Char) : Decidable (Lower c) := by
  unfold Lower
  infer_instance

/-- Whether lower case leaves the letters of the run alone once it has moved them. -/
def CaseRun.Settles (run : CaseRun) : Bool :=
  0 ≤ run.first + run.shift && (dottedI :: caseRuns).all
    (·.Misses (run.first + run.shift).toNat (run.last + run.shift).toNat run.step)

theorem settles_of_mem {run : CaseRun} (h : run ∈ caseRuns) : run.Settles = true := by
  have hall : caseRuns.all CaseRun.Settles = true := by decide +kernel
  exact List.all_eq_true.1 hall run h

theorem lower_shift {run : CaseRun} (h : run ∈ caseRuns) {c : Char} (hc : run.covers c = true) :
    Lower (Char.ofNat (c.toNat + run.shift).toNat) := by
  have hs := settles_of_mem h
  simp only [CaseRun.Settles, Bool.and_eq_true, decide_eq_true_eq, List.all_eq_true] at hs
  obtain ⟨hfirst, hmisses⟩ := hs
  simp only [CaseRun.covers, Bool.and_eq_true, decide_eq_true_eq, beq_iff_eq] at hc
  obtain ⟨⟨hlo, hhi⟩, hstep⟩ := hc
  by_cases hv : (c.toNat + run.shift).toNat.isValidChar
  · have hn : (Char.ofNat (c.toNat + run.shift).toNat).toNat = (c.toNat + run.shift).toNat := by
      rw [Char.ofNat, dif_pos hv]
      rfl
    have hsub : (c.toNat + run.shift).toNat - (run.first + run.shift).toNat =
        c.toNat - run.first := by omega
    intro other ho
    apply CaseRun.covers_of_misses (hmisses other ho) <;> rw [hn]
    · omega
    · omega
    · rw [hsub, hstep]
  · -- a number that no character has stands for the first character of all
    rw [Char.ofNat, dif_neg hv]
    decide +kernel

theorem lower_of_mem_lowerChar {c x : Char} (h : x ∈ lowerChar c) : Lower x := by
  unfold lowerChar at h
  split at h
  · have hall : Lower 'i' ∧ Lower (Char.ofNat 0x307) := by decide +kernel
    rcases List.mem_cons.1 h with rfl | h
    · exact hall.1
    · obtain rfl := List.mem_singleton.1 h
      exact hall.2
  · next hdot =>
    split at h
    · next run hrun =>
      obtain rfl := List.mem_singleton.1 h
      have hcovers := List.find?_some hrun
      exact lower_shift (List.mem_of_find?_eq_some hrun) hcovers
    · next hnone =>
      obtain rfl := List.mem_singleton.1 h
      intro run hrun
      rcases List.mem_cons.1 hrun with rfl | hrun
      · rw [covers_dottedI, decide_eq_false hdot]
      · exact Bool.eq_false_iff.2 (List.find?_eq_none.1 hnone run hrun)

theorem lower_of_mem_lowerFrom {before cs : List Char} {x : Char}
    (h : x ∈ lowerFrom before cs) : Lower x := by
  induction cs generalizing before with
  | nil => cases h
  | cons c after ih =>
    rcases List.mem_append.1 h with h | h
    · split at h
      · have hall : Lower (Char.ofNat 0x3c2) ∧ Lower (Char.ofNat 0x3c3) := by decide +kernel
        obtain rfl := List.mem_singleton.1 h
        split
        · exact hall.1
        · exact hall.2
      · exact lower_of_mem_lowerChar h
    · exact ih h

theorem lowerChar_of_lower {c : Char} (h : Lower c) : lowerChar c = [c] := by
  have hdot : c.toNat ≠ 0x130 := by
    intro hc
    simpa [covers_dottedI, hc] using h dottedI List.mem_cons_self
  have hnone : caseRuns.find? (·.covers c) = none :=
    List.find?_eq_none.2 fun run hrun => by simp [h run (List.mem_cons_of_mem _ hrun)]
  simp [lowerChar, hdot, hnone]

theorem toNat_ne_of_lower {c : Char} (h : Lower c) : c.toNat ≠ 0x3a3 := by
  intro hc
  have hany : caseRuns.any (·.covers (Char.ofNat 0x3a3)) = true := by decide +kernel
  obtain ⟨run, hrun, hcovers⟩ := List.any_eq_true.1 hany
  rw [← hc, Char.ofNat_toNat, h run (List.mem_cons_of_mem _ hrun)] at hcovers
  cases hcovers

theorem lowerFrom_of_lower {before cs : List Char} (h : ∀ c ∈ cs, Lower c) :
    lowerFrom before cs = cs := by
  induction cs generalizing before with
  | nil => rfl
  | cons c after ih =>
    rw [lowerFrom, if_neg (toNat_ne_of_lower (h c List.mem_cons_self)),
      lowerChar_of_lower (h c List.mem_cons_self),
      ih fun x hx => h x (List.mem_cons_of_mem _ hx)]
    rfl

@[simp] theorem lowercase_lowercase (s : String) : lowercase (lowercase s) = lowercase s := by
  unfold lowercase
  rw [String.toList_ofList, lowerFrom_of_lower fun c hc => lower_of_mem_lowerFrom hc]

end TagWire.Text
