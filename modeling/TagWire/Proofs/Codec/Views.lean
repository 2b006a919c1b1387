import TagWire.Proofs.Codec.Builtin

/-! Codecs that find one kind of value in a field and put one there. What was in the field before
has no part in what is read into it, and a value comes back up to the conversion of its codec. -/
namespace TagWire

variable {S : Schema} {t : Shape} {L : Limits} {α : Type}

namespace Codec

/-- Reads a value of a shape through the codec into a new place. -/
def fresh (c : Codec S) (t : Shape) : Reading (Datum S t) := InPlace.produce c.decode (.initial t)

/-- What was in the place before has no part in what is read. -/
def Steady (c : Codec S) : Prop :=
  ∀ {t : Shape} (d : Datum S t), InPlace.produce c.decode d = c.fresh t

/-- What is written for `d` is read as `d'`. -/
def Carries (L : Limits) (c : Codec S) (d d' : Datum S t) : Prop :=
  Appends (c.encode d) fun _ bs => Takes L (c.fresh t) bs d'

theorem produce_counted (g : Datum S t → Reading (Datum S t)) (d : Datum S t) :
    InPlace.produce (fun d => counted (g d) d) d = g d := by
  funext r
  unfold InPlace.produce counted
  dsimp only
  rcases g d r with ⟨_ | _, _⟩ <;> rfl

section Views

variable {name : String} {find : {t : Shape} → Datum S t → Option α}
  {put : α → {t : Shape} → Datum S t → Option (Datum S t)} {write : α → Writing Nat}
  {read : Reading α}

def readView (name : String) (put : α → {t : Shape} → Datum S t → Option (Datum S t))
    (read : Reading α) (d : Datum S t) : Reading (Datum S t) := do
  match put (← read) d with
  | some d => return d
  | none => .fail (unsupported name S t)

theorem produce_ofViews (d : Datum S t) :
    InPlace.produce (ofViews name find put write read).decode d = readView name put read d :=
  produce_counted (readView name put read) d

theorem steady_ofViews (hp : ∀ {t : Shape} (a : α) (d d' : Datum S t), put a d = put a d') :
    (ofViews name find put write read).Steady := by
  intro t d
  rw [fresh, produce_ofViews, produce_ofViews]
  refine bind_congr fun a => ?_
  rw [hp a d (.initial t)]

theorem guarded_ofViews (hr : Guarded read) (t : Shape) :
    Guarded ((ofViews name find put write read).fresh t) := by
  rw [fresh, produce_ofViews]
  refine hr.bind fun a => ?_
  split
  · exact Guarded.pure _
  · exact Guarded.fail _

theorem carries_ofViews {d d' : Datum S t} (h : ∀ a, find d = some a → ∃ a',
    Appends (write a) (fun _ bs => Takes L read bs a') ∧ put a' (.initial t) = some d') :
    (ofViews name find put write read).Carries L d d' := by
  rw [Carries, fresh, produce_ofViews]
  cases hf : find d with
  | none =>
    have he : (ofViews name find put write read).encode d = .fail (unsupported name S t) := by
      simp only [ofViews, hf]
    rw [he]
    exact Appends.fail _
  | some a =>
    have he : (ofViews name find put write read).encode d = write a := by
      simp only [ofViews, hf]
    obtain ⟨a', hw, hp⟩ := h a hf
    rw [he]
    refine hw.mono fun n bs ht => ht.bind_nil ?_
    rw [hp]
    exact Takes.pure d'

theorem yields_ofViews {P : α → Nat → Prop} {Q : Datum S t → Prop} (hr : Yields L read P)
    (h : ∀ a n d, P a n → put a (.initial t) = some d → Q d) :
    Yields L ((ofViews name find put write read).fresh t) fun d _ => Q d := by
  rw [fresh, produce_ofViews]
  refine hr.bind fun a n hp => ?_
  split
  · next d hd => exact Yields.pure (h a n d hp hd)
  · exact Yields.fail _

end Views

end Codec

namespace Datum

theorem putTruth?_congr (b : Bool) (d d' : Datum S t) : putTruth? b d = putTruth? b d' := by
  cases t with
  | scalar s =>
    cases d
    cases d'
    cases s <;> rfl
  | _ => rfl

theorem putInteger?_congr (x : Int) (d d' : Datum S t) : putInteger? x d = putInteger? x d' := by
  cases t with
  | scalar s =>
    cases d
    cases d'
    cases s <;> rfl
  | _ => rfl

theorem putDouble?_congr (x : UInt64) (d d' : Datum S t) : putDouble? x d = putDouble? x d' := by
  cases t with
  | scalar s =>
    cases d
    cases d'
    cases s <;> rfl
  | _ => rfl

end Datum

namespace Codec

/-- The integers of a codec go over the wire as numbers of the kind `w`. -/
structure Numeric (w : IntKind) (write : Int → Writing Nat) (read : Reading Int) : Prop where
  sends : ∀ x, ∃ bs, Emits (write x) bs.length bs ∧ ∀ L, Takes L read bs (w.wrap x).val
  guarded : Guarded read
  yields : ∀ L, Yields L read fun x _ => w.Fits x

theorem numeric_fixed {w : IntKind} (h : w.wire = w) (op : String) :
    Numeric w (fun x => Writer.numberAs op (w.wrap x)) ((·.val) <$> Reader.numberAs op w) where
  sends x :=
    have hf : w.wire.Fits (w.wrap x).val := h.symm ▸ (w.wrap x).fits
    ⟨_, Writer.emits_numberAs op hf, fun _ => (Reader.takes_numberAs op hf).map (·.val)⟩
  guarded := (Reader.guarded_numberAs op w).map _
  yields _ := Yields.map ((Reader.yields_numberAs op w).mono fun n _ _ => n.fits)

theorem numeric_counted {form : Nat → List UInt8} {write : Nat → Writing Nat} {read : Reading Nat}
    (hw : ∀ n, Emits (write n) (form n).length (form n))
    (ht : ∀ {L n}, n < sizeBound → Takes L read (form n) n) (hs : Guarded read)
    (hy : ∀ {L}, Yields L read fun n _ => n < sizeBound) :
    Numeric .u64 (fun x => write (IntKind.u64.wrap x).pattern) (Int.ofNat <$> read) where
  sends x := by
    refine ⟨_, hw _, fun L => ?_⟩
    have h := (ht (L := L) (IntKind.u64.wrap x).pattern_lt_sizeBound).map Int.ofNat
    rwa [Int.ofNat_eq_natCast, ← Num.val_eq_pattern] at h
  guarded := hs.map _
  yields L := by
    refine Yields.map (hy.mono fun n _ h => IntKind.fits_u64_iff.2 ?_)
    rw [Int.ofNat_eq_natCast]
    unfold sizeBound at h
    omega

end Codec

/-- What was read through a codec can be written through it, and comes back as it is. -/
def Builtin.Restores (L : Limits) (b : Builtin) (c : Codec S) (d : Datum S t) : Prop :=
  (∃ n bs, Emits (c.encode d) n bs) ∧ b.Within L d ∧ b.convert d = d

namespace Codec

section Integers

variable {b : Builtin} {name : String} {w : IntKind} {write : Int → Writing Nat}
  {read : Reading Int}

theorem carries_integer (hb : b.kind? = some w) (h : Numeric w write read) (d : Datum S t) :
    (integer name write read).Carries L d (b.convert d) := by
  refine carries_ofViews fun x hx => ?_
  obtain ⟨bs, he, ht⟩ := h.sends x
  refine ⟨_, he.appends (ht L), ?_⟩
  cases d with
  | @scalar s n =>
    cases s with
    | int k =>
      cases hx
      cases b <;> cases hb <;> rfl
    | _ => cases hx
  | _ => cases hx

theorem restores_integer (hb : b.kind? = some w) (h : Numeric w write read) (t : Shape) :
    Yields L ((integer name write read).fresh t) fun d _ =>
      b.Restores L (integer name write read : Codec S) d := by
  refine yields_ofViews (h.yields L) fun x _ d hx hd => ?_
  cases t with
  | scalar s =>
    cases s with
    | int k =>
      cases hd
      obtain ⟨bs, he, _⟩ := h.sends (k.wrap x).val
      refine ⟨⟨_, _, he⟩, ?_, ?_⟩
      · cases b <;> trivial
      · have hw := congrArg (Datum.scalar (S := S) (s := .int k)) (k.wrap_wrap_wrap hx)
        cases b <;> cases hb <;> exact hw
    | _ => cases hd
  | _ => cases hd

end Integers

theorem carries_bool (d : Datum S t) : bool.Carries L d (Builtin.bool.convert d) := by
  refine carries_ofViews fun b hb => ?_
  refine ⟨b, (Writer.emits_bool b).appends (Reader.takes_bool b), ?_⟩
  cases d with
  | @scalar s x =>
    cases s with
    | bool =>
      cases hb
      rfl
    | int k =>
      cases hb
      by_cases hx : x.val = 0
      · simp [Datum.putTruth?, Datum.initial, Datum.initialWith, Builtin.convert,
          Builtin.convertScalar, hx]
      · simp [Datum.putTruth?, Datum.initial, Datum.initialWith, Builtin.convert,
          Builtin.convertScalar, hx]
    | _ => cases hb
  | _ => cases hb

theorem restores_bool (t : Shape) :
    Yields L (bool.fresh t) fun d _ => Builtin.bool.Restores L (bool : Codec S) d := by
  refine yields_ofViews Reader.yields_bool fun b _ d _ hd => ?_
  cases t with
  | scalar s =>
    cases s with
    | bool =>
      cases hd
      exact ⟨⟨_, _, Writer.emits_bool b⟩, trivial, rfl⟩
    | int k =>
      cases hd
      refine ⟨⟨_, _, Writer.emits_bool _⟩, trivial, ?_⟩
      have h0 := IntKind.wrap_val_of_fits k.fits_zero
      have h1 : (k.wrap 1).val = 1 := IntKind.wrap_val_of_fits (by cases k <;> decide)
      cases b <;> simp [Builtin.convert, Builtin.convertScalar, h0, h1]
    | _ => cases hd
  | _ => cases hd

end Codec

end TagWire
