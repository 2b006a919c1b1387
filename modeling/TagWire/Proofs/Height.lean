import Mathlib.Data.Fintype.Lattice
import Mathlib.Order.Lattice.Nat
import TagWire.Proofs.Passage
import TagWire.Proofs.Session

/-! The height of a value, and what it costs to encode it. An encoder has so many levels for values
within values; with as many as the value is high it does what it does with any larger number, and
with fewer it ends where they run out. -/
namespace TagWire

variable {S : Schema} {setting : Setting S} {t : Shape} {r : Nat} {version : Int}

def Schema.isPlainAt (S : Schema) (version : Int) (r : Nat) (i : Fin (S.arity r)) : Bool :=
  match S.descriptor r i with
  | .ok d => d.isPresent version && d.codec.isNone
  | .error _ => false

theorem Setting.passage_eq_plain_iff {i : Fin (S.arity r)} :
    setting.passage r i = .plain ↔ S.isPlainAt setting.options.version r i = true := by
  unfold passage Schema.isPlainAt
  cases S.descriptor r i with
  | error e => simp
  | ok d =>
    by_cases hp : d.isPresent setting.options.version = true
    · cases hc : d.codec with
      | none => simp [hp, hc]
      | some name =>
        cases hl : setting.registry.lookup name with
        | error e => simp [hp, hc, hl]
        | ok c => cases hb : Builtin.ofCodec? c <;> simp [hp, hc, hl, hb]
    · simp [hp]

namespace Datum

/-- The levels of values within values that are on the wire at a version. What is left to a codec or
describes itself is a leaf. -/
def height (version : Int) : {t : Shape} → Datum S t → Nat
  | _, .scalar _ => 1
  | _, .sequence _ item => 1 + Finset.univ.sup fun i => (item i).height version
  | _, .absent => 1
  | _, .present d => 1 + d.height version
  | _, .boxed d => 1 + d.height version
  | _, .record (r := r) field => 1 + Finset.univ.sup fun i =>
    if S.isPlainAt version r i then (field i).height version else 0
  | _, .custom _ => 1

theorem height_pos : {t : Shape} → (d : Datum S t) → 0 < d.height version
  | _, .scalar _ | _, .absent | _, .custom _ => Nat.one_pos
  | _, .sequence _ _ | _, .present _ | _, .boxed _ | _, .record _ => by
    unfold height
    omega

variable {levels : Nat}

theorem height_sequence_le_iff {n : Nat} {item : Fin n → Datum S t} :
    (Datum.sequence n item).height version ≤ levels + 1 ↔
      ∀ d ∈ List.ofFn item, d.height version ≤ levels := by
  rw [height, Nat.add_comm, Nat.add_le_add_iff_right, Finset.sup_le_iff, List.forall_mem_ofFn_iff]
  simp

theorem height_present_le_iff {d : Datum S t} :
    (Datum.present d).height version ≤ levels + 1 ↔ d.height version ≤ levels := by
  rw [height, Nat.add_comm, Nat.add_le_add_iff_right]

theorem height_boxed_le_iff {d : Datum S t} :
    (Datum.boxed d).height version ≤ levels + 1 ↔ d.height version ≤ levels := by
  rw [height, Nat.add_comm, Nat.add_le_add_iff_right]

theorem height_record_le_iff {fields : Fields S r} :
    (Datum.record fields).height version ≤ levels + 1 ↔
      ∀ i, S.isPlainAt version r i = true → (fields i).height version ≤ levels := by
  rw [height, Nat.add_comm, Nat.add_le_add_iff_right, Finset.sup_le_iff]
  apply forall_congr'
  intro i
  by_cases hi : S.isPlainAt version r i = true
  · simp [hi]
  · simp [hi]

end Datum

def Descriptor.Shallow (version : Int) (levels : Nat) (fields : Fields S r) (d : Descriptor) :
    Prop :=
  ∀ i : Fin (S.arity r), d.index = i → S.isPlainAt version r i = true →
    (fields i).height version ≤ levels

theorem Descriptor.shallow_iff {levels : Nat} {fields : Fields S r} {d : Descriptor}
    {i : Fin (S.arity r)} (hi : d.index = i) (hp : setting.passage r i = .plain) :
    d.Shallow setting.options.version levels fields ↔
      (fields i).height setting.options.version ≤ levels := by
  constructor
  · intro h
    exact h i hi (Setting.passage_eq_plain_iff.1 hp)
  · intro h j hj _
    obtain rfl : i = j := Fin.ext (hi.symm.trans hj)
    exact h

theorem Descriptor.shallow_of_through {levels : Nat} {fields : Fields S r} {d : Descriptor}
    {i : Fin (S.arity r)} {b : Builtin} (hi : d.index = i)
    (hp : setting.passage r i = .through b) :
    d.Shallow setting.options.version levels fields := by
  intro j hj hplain
  obtain rfl : i = j := Fin.ext (hi.symm.trans hj)
  rw [Setting.passage_eq_plain_iff.2 hplain] at hp
  cases hp

theorem Datum.height_record_le_iff_shallow {fields : Fields S r} {levels : Nat}
    {layout : List Descriptor} (hl : (S.record r).layoutAt version = .ok layout) :
    (Datum.record fields).height version ≤ levels + 1 ↔
      ∀ d ∈ layout, d.Shallow version levels fields := by
  rw [height_record_le_iff]
  constructor
  · intro h d _ i _ hi
    exact h i hi
  · intro h i hi
    have hplain := hi
    unfold Schema.isPlainAt at hplain
    split at hplain
    · next d hd =>
      rw [Bool.and_eq_true] at hplain
      obtain ⟨hm, hix⟩ := (S.mem_layoutAt hl i d).2 ⟨hd, hplain.1⟩
      exact h d hm i hix hi
    · cases hplain

def Setting.withMaxDepth (setting : Setting S) (n : Nat) : Setting S :=
  { setting with options := setting.options.withMaxDepth n }

/-- As far as the first step succeeds, the second does the same if `p` holds, and ends in the error
`e` if not. -/
def Capped {σ α : Type} (p : Prop) (e : Error) (x y : Attempt Error σ α) : Prop :=
  ∀ s a s', x s = (.ok a, s') →
    (p → y s = (.ok a, s')) ∧ (¬ p → ∃ s'', y s = (.error e, s''))

namespace Capped

variable {σ α β γ : Type} {p q : Prop} {e : Error} {x y : Attempt Error σ α}
  {f g : α → Attempt Error σ β}

theorem self (h : p) (x : Attempt Error σ α) : Capped p e x x :=
  fun _ _ _ hx => ⟨fun _ => hx, fun hn => absurd h hn⟩

theorem fail (h : ¬ p) (x : Attempt Error σ α) : Capped p e x (.fail e) :=
  fun s _ _ _ => ⟨fun hp => absurd hp h, fun _ => ⟨s, rfl⟩⟩

theorem of_fail (e' : Error) (y : Attempt Error σ α) : Capped p e (.fail e') y :=
  fun _ _ _ hx => by cases hx

theorem congr (hpq : p ↔ q) (h : Capped p e x y) : Capped q e x y := by
  rwa [← propext hpq]

theorem bind (hx : Capped p e x y) (hf : ∀ a, Capped q e (f a) (g a)) :
    Capped (p ∧ q) e (x >>= f) (y >>= g) := by
  intro s b s₂ h
  rcases h₁ : x s with ⟨e' | a, s₁⟩
  · rw [Attempt.bind_error h₁] at h
    cases h
  · rw [Attempt.bind_ok h₁] at h
    obtain ⟨hy, hyn⟩ := hx s a s₁ h₁
    obtain ⟨hg, hgn⟩ := hf a s₁ b s₂ h
    refine ⟨fun ⟨hp, hq⟩ => (Attempt.bind_ok (hy hp)).trans (hg hq), fun hn => ?_⟩
    by_cases hp : p
    · rw [Attempt.bind_ok (hy hp)]
      exact hgn fun hq => hn ⟨hp, hq⟩
    · obtain ⟨s', h'⟩ := hyn hp
      exact ⟨s', Attempt.bind_error h'⟩

theorem after (x : Attempt Error σ α) (hf : ∀ a, Capped q e (f a) (g a)) :
    Capped q e (x >>= f) (x >>= g) := ((self trivial x).bind hf).congr (Iff.of_eq (true_and q))

theorem forEach {P : γ → Prop} {f g : γ → Attempt Error σ Unit} {cs : List γ}
    (h : ∀ c ∈ cs, Capped (P c) e (f c) (g c)) :
    Capped (∀ c ∈ cs, P c) e (Attempt.forEach f cs : Attempt Error σ Unit)
      (Attempt.forEach g cs) := by
  induction cs with
  | nil => exact self (by simp) _
  | cons c cs ih =>
    rw [Attempt.forEach_cons, Attempt.forEach_cons]
    have ih := ih fun c hc => h c (List.mem_cons_of_mem _ hc)
    exact ((h c List.mem_cons_self).bind fun _ => ih).congr List.forall_mem_cons.symm

end Capped

namespace Encoding

theorem body_withMaxDepth (n : Nat) (nested : {t : Shape} → Datum S t → Encoding Unit)
    (d : Datum S t) : body (setting.withMaxDepth n) nested d = body setting nested d :=
  body_congr rfl rfl d

theorem value_withMaxDepth_succ (n levels : Nat) (d : Datum S t) :
    value (setting.withMaxDepth n) (levels + 1) d =
      announce t >>= fun _ => body setting (value (setting.withMaxDepth n) levels) d :=
  bind_congr fun _ => body_withMaxDepth n _ d

variable {allowed : Builtin → Shape → Prop} {e : Error}
  {enc₁ enc₂ : {t : Shape} → Datum S t → Encoding Unit}

theorem capped_field {levels : Nat} {fields : Fields S r} {d : Descriptor}
    (hd : setting.Faces allowed r d)
    (h : ∀ i, Capped ((fields i).height setting.options.version ≤ levels) e (enc₁ (fields i))
      (enc₂ (fields i))) :
    Capped (d.Shallow setting.options.version levels fields) e (field setting enc₁ fields d)
      (field setting enc₂ fields d) := by
  cases hd with
  | refused e' encode _ =>
    rw [encode]
    exact Capped.of_fail e' _
  | plain i hi hp encode _ =>
    rw [encode, encode]
    exact (h i).congr (Descriptor.shallow_iff hi hp).symm
  | through i b hi hp _ encode _ =>
    rw [encode, encode]
    exact Capped.self (Descriptor.shallow_of_through hi hp) _

theorem capped_value {levels₀ : Nat} (ho : setting.Overrides allowed t) (d : Datum S t)
    (n₀ n levels : Nat) :
    Capped (d.height setting.options.version ≤ levels) (.depthExceeded n)
      (value (setting.withMaxDepth n₀) levels₀ d) (value (setting.withMaxDepth n) levels d) := by
  induction levels₀ generalizing t levels with
  | zero => exact Capped.of_fail _ _
  | succ levels₀ ih =>
    cases levels with
    | zero => exact Capped.fail (Nat.not_le.2 d.height_pos) _
    | succ levels =>
      rw [value_withMaxDepth_succ, value_withMaxDepth_succ]
      apply Capped.after
      intro _
      have hpart := fun (u : Shape) (hu : u ∈ S.parts t) (d : Datum S u) =>
        ih (ho.part hu) d levels
      cases d with
      | scalar x => exact Capped.self (Nat.le_add_left 1 levels) _
      | @sequence t m item =>
        rw [body_sequence, body_sequence]
        apply Capped.after
        intro _
        have hitems := Capped.forEach fun d (_ : d ∈ List.ofFn item) =>
          hpart t (S.mem_parts_sequence t) d
        exact hitems.congr Datum.height_sequence_le_iff.symm
      | absent => exact Capped.of_fail _ _
      | @present t d =>
        exact (hpart t (S.mem_parts_optional t) d).congr Datum.height_present_le_iff.symm
      | @boxed t d =>
        exact (hpart t (S.mem_parts_boxed t) d).congr Datum.height_boxed_le_iff.symm
      | @record r fields =>
        rw [body_record, body_record]
        cases hl : (S.record r).layoutAt setting.options.version with
        | error e => exact Capped.of_fail e _
        | ok layout =>
          have hfields := Capped.forEach fun d hd => capped_field (ho.faces hl hd) fun i =>
            hpart _ (Schema.fieldShape_mem_parts r i) (fields i)
          exact hfields.congr (Datum.height_record_le_iff_shallow hl).symm
      | custom x => exact Capped.self (Nat.le_add_left 1 levels) _

end Encoding

/-- A value that can be encoded with some number of levels can be with just those as it is high, and
with fewer it can not. -/
theorem Setting.encode_withMaxDepth {allowed : Builtin → Shape → Prop}
    (ho : setting.Overrides allowed t) {d : Datum S t} {n₀ : Nat} {bs : List UInt8}
    (he : (setting.withMaxDepth n₀).encode d = .ok bs) (n : Nat) :
    (setting.withMaxDepth n).encode d =
      if d.height setting.options.version ≤ n then .ok bs else .error (.depthExceeded n) := by
  rw [encode_eq_output] at he ⊢
  obtain ⟨_, s, hs⟩ := of_output he
  obtain ⟨hsame, hfails⟩ := Encoding.capped_value ho d n₀ n n _ _ _ hs
  by_cases hn : d.height setting.options.version ≤ n
  · have hrun : Encoding.value (setting.withMaxDepth n) (setting.withMaxDepth n).options.maxDepth d
        ⟨{}, {}⟩ = _ := hsame hn
    unfold output at he ⊢
    rw [hs] at he
    rw [if_pos hn, hrun, ← he]
  · obtain ⟨s', hs'⟩ := hfails hn
    have hrun : Encoding.value (setting.withMaxDepth n) (setting.withMaxDepth n).options.maxDepth d
        ⟨{}, {}⟩ = _ := hs'
    unfold output
    rw [if_neg hn, hrun]

end TagWire
