import TagWire.Proofs.Parallel
import TagWire.Proofs.Session
import TagWire.Sample.Schema

/-! A higher version only adds bytes. Every record lets fields through on its own, within records,
sequences and behind optional values, so two runs at two versions part in many places; the run at
the lower version thins the other at each of them. -/
namespace TagWire

variable {S : Schema} {setting : Setting S} {t : Shape} {v₁ v₂ : Int}

/-- All self-describing types within the shape only add bytes as the version rises, wherever in the
output they are written. -/
def Schema.Grows (S : Schema) (t : Shape) : Prop :=
  ∀ k, S.Contains t (.custom k) → ∀ (x : (S.custom k).Carrier) {v₁ v₂ : Int}, v₁ ≤ v₂ →
    Thins ((S.custom k).marshal x v₁) ((S.custom k).marshal x v₂)

theorem thins_value {levels : Nat} (hv : v₁ ≤ v₂) (hc : ∀ c, setting.Employs t c → c.Pure)
    (hm : S.Grows t) (d : Datum S t) :
    Thins (Encoding.value (setting.withVersion v₁) levels d)
      (Encoding.value (setting.withVersion v₂) levels d) := by
  have hR : ParallelClosed fun _ x y => Thins x y :=
    ⟨Constant.thins, Thins.bind, fun h => h.skip ()⟩
  exact hR.value hv hc (fun k hk x => Encoding.thins_write (hm k hk x hv)) d

/-- Raising the version only adds bytes: what can be encoded at a version can be encoded at every
lower one, and the bytes there are those of the higher version with some left out. -/
theorem Setting.encode_withVersion_of_le (hc : ∀ c, setting.Employs t c → c.Pure)
    (hm : S.Grows t) (x : Datum S t) (hv : v₁ ≤ v₂) {cs : List UInt8}
    (he : (setting.withVersion v₂).encode x = .ok cs) :
    ∃ bs, (setting.withVersion v₁).encode x = .ok bs ∧ bs.Sublist cs ∧ bs.length ≤ cs.length := by
  rw [encode_eq_output] at he
  obtain ⟨_, u, hy⟩ := of_output he
  obtain ⟨_, s, bs, cs', hx, hs, hu, hsub⟩ :=
    thins_value hv hc hm x ⟨{}, {}⟩ ⟨{}, {}⟩ _ u rfl rfl hy
  obtain rfl : cs = cs' := Except.ok.inj (he.symm.trans (output_of_append hy rfl hu))
  refine ⟨bs, ?_, hsub, hsub.length_le⟩
  rw [encode_eq_output]
  exact output_of_append hx rfl hs

namespace Sample

theorem Endpoint.thins_marshal (e : Endpoint) (hv : v₁ ≤ v₂) :
    Thins (marshal e v₁) (marshal e v₂) := by
  have hid := Writer.constant_numberAs IntKind.u16.op e.id
  have hlabel := Constant.of_emits (Writer.emits_text e.label)
  refine hid.thins.bind fun n m => ?_
  have hadd : Thins (do return n + (← Writer.text e.label))
      (do return m + (← Writer.text e.label)) :=
    hlabel.thins.bind fun _ _ => Thins.of_emits (Emits.pure _) (Emits.pure _) (List.Sublist.refl [])
  by_cases h₂ : v₂ < labelVersion
  · have h₁ : v₁ < labelVersion := by omega
    rw [if_pos h₁, if_pos h₂]
    exact Thins.of_emits (Emits.pure n) (Emits.pure m) (List.Sublist.refl [])
  · rw [if_neg h₂]
    by_cases h₁ : v₁ < labelVersion
    · rw [if_pos h₁]
      exact hadd.skip n
    · rw [if_neg h₁]
      exact hadd

def growth : RecordType := recordType "Growth" [
  ⟨"target", endpoint, ",1,-2"⟩, ⟨"limit", int .i64, "int,2,3"⟩,
  ⟨"items", .sequence (.record 5), ",3"⟩]

def growthSchema : TagWire.Schema := schemaWith growth (by decide)

def growthShapes : List Shape :=
  [.record spare, endpoint, int .i64, .sequence (.record 5), .record 5, int .i32]

def growthItem : Fields growthSchema 5
  | ⟨0, _⟩ => .scalar (IntKind.i32.wrap 2)
  | ⟨1, _⟩ => .scalar (IntKind.i32.wrap 1)

def grown : Datum growthSchema (.record spare) := .record fun
  | ⟨0, _⟩ => .custom (k := 0) (⟨IntKind.u16.wrap 7, "ab"⟩ : Endpoint)
  | ⟨1, _⟩ => .scalar (IntKind.i64.wrap 9)
  | ⟨2, _⟩ => .sequence 1 fun _ => .record growthItem

def growthSetting : Setting growthSchema := ⟨{}, .builtins⟩

end Sample

theorem Setting.encode_withVersion_of_le_grown : ∃ bs,
    (Sample.growthSetting.withVersion (-3)).encode Sample.grown = .ok bs ∧
      bs.Sublist [0, 7, 2, 97, 98, 0, 0, 0, 9, 1, 0, 0, 0, 1, 0, 0, 0, 2] ∧ bs.length ≤ 18 := by
  have hc : Sample.growthSchema.Closed Sample.growthShapes := by decide +kernel
  have ht : .record Sample.spare ∈ Sample.growthShapes := by decide
  have hm : Sample.growthSchema.Grows (.record Sample.spare) := by
    intro k hk
    obtain rfl : k = 0 := by
      simpa [Sample.growthShapes, Sample.endpoint] using hk.mem_of_closed hc ht
    exact fun e _ _ hv => Sample.Endpoint.thins_marshal e hv
  have hp : ∀ c, Sample.growthSetting.Employs (.record Sample.spare) c → c.Pure := fun _ h =>
    h.pure rfl
  exact encode_withVersion_of_le hp hm Sample.grown (by decide : (-3 : Int) ≤ 5)
    (encode_of_toOption (by decide +kernel))

end TagWire
