import TagWire.Proofs.Wire.Size
import TagWire.Wire.Text

/-! Text within the limits is read back, and no form of it is shorter than the written one. -/
namespace TagWire

variable {L : Limits}

namespace Text

theorem ofUtf8?_utf8 (s : String) : ofUtf8? (utf8 s) = some s := by
  unfold ofUtf8? utf8 String.fromUTF8?
  exact dif_pos s.isValidUTF8

theorem utf8_of_ofUtf8? {bs : List UInt8} {s : String} (h : ofUtf8? bs = some s) : utf8 s = bs := by
  unfold ofUtf8? String.fromUTF8? at h
  split at h
  · cases h
    rfl
  · cases h

theorem length_utf8 (s : String) : (utf8 s).length = s.utf8ByteSize := Array.length_toList

theorem length_utf8_of_utf8Size {s : String} (h : ∀ c ∈ s.toList, c.utf8Size = 1) :
    (utf8 s).length = s.toList.length := by
  obtain ⟨cs, rfl⟩ : ∃ cs, s = String.ofList cs := ⟨s.toList, s.ofList_toList.symm⟩
  rw [String.toList_ofList] at h ⊢
  rw [length_utf8, ← String.size_toByteArray, String.toByteArray_ofList]
  induction cs with
  | nil => rfl
  | cons c cs ih =>
    have ih := ih fun c hc => h c (List.mem_cons_of_mem _ hc)
    rw [List.utf8Encode_cons, ByteArray.size_append, ih, List.utf8Encode_singleton,
      List.size_toByteArray, String.length_utf8EncodeChar, h c List.mem_cons_self,
      List.length_cons, Nat.add_comm]

end Text

/-- Whether text of so many bytes is read. No text is longer than a buffer can be. -/
def Limits.AdmitsText (L : Limits) (n : Nat) : Prop := n ≤ L.maxText ∧ n ≤ Reader.capacity

instance (n : Nat) : Decidable (L.AdmitsText n) := inferInstanceAs (Decidable (_ ∧ _))

namespace Writer

def textForm (bs : List UInt8) : List UInt8 :=
  if bs.isEmpty then [0] else NullableSize.encode bs.length ++ bs

theorem textForm_of_ne_nil {bs : List UInt8} (h : bs ≠ []) :
    textForm bs = NullableSize.encode bs.length ++ bs := by
  rw [textForm, if_neg (by simpa using h)]

theorem emits_textBytes (bs : List UInt8) :
    Emits (textBytes bs) (textForm bs).length (textForm bs) := by
  unfold textBytes
  by_cases h : bs = []
  · subst h
    exact emits_bytes _ _
  · rw [if_neg (by simpa using h), textForm_of_ne_nil h, List.length_append]
    exact (emits_nullableSize _).bind ((emits_bytes "string" bs).map (_ + ·))

theorem emits_text (s : String) :
    Emits (text s) (textForm (Text.utf8 s)).length (textForm (Text.utf8 s)) := emits_textBytes _

end Writer

namespace Reader

theorem capacity_lt_sizeBound : capacity < sizeBound := by decide

theorem takes_textBytes {bs : List UInt8} (h : L.AdmitsText bs.length) :
    Takes L textBytes (Writer.textForm bs) bs := by
  refine Takes.position fun start => ?_
  by_cases hb : bs = []
  · subst hb
    have hz : Writer.textForm [] = NullableSize.encode 0 ++ [] := by
      simp [Writer.textForm, NullableSize.encode_of_lt]
    rw [hz]
    refine (takes_nullableSize (by decide)).bind (Takes.limits (·.maxText) ?_)
    exact Takes.pure _
  · have hn : bs.length ≠ 0 := by simpa using hb
    rw [Writer.textForm_of_ne_nil hb]
    have hbound : bs.length < sizeBound := Nat.lt_of_le_of_lt h.2 capacity_lt_sizeBound
    refine (takes_nullableSize hbound).bind (Takes.limits (·.maxText) ?_)
    rw [if_neg hn, if_pos h.1]
    exact takes_buffer _ h.2

theorem takes_text {s : String} (h : L.AdmitsText (Text.utf8 s).length) :
    Takes L text (Writer.textForm (Text.utf8 s)) s := by
  refine Takes.position fun start => ?_
  rw [← List.append_nil (Writer.textForm _)]
  refine (takes_textBytes h).bind ?_
  rw [Text.ofUtf8?_utf8]
  exact Takes.pure s

/-- Empty text passes under any limit, so its length is not checked. -/
theorem guarded_textBytes : Guarded textBytes := by
  refine Guarded.position.bind fun start => guarded_nullableSize.bind fun n => ?_
  by_cases hn : n = 0
  · simp only [if_pos hn]
    exact Guarded.pure []
  · simp only [if_neg hn]
    exact .gauged .text start n (guarded_buffer "string" n)

theorem guarded_text : Guarded text := by
  refine Guarded.position.bind fun start => guarded_textBytes.bind fun bs => ?_
  split
  · exact Guarded.pure _
  · exact Guarded.fail _

theorem yields_textBytes : Yields L textBytes fun bs k =>
    L.AdmitsText bs.length ∧ (Writer.textForm bs).length ≤ k := by
  refine Yields.view fun r _ => yields_nullableSize.bind fun n k hn => Yields.view fun r hl => ?_
  split
  · next h0 =>
    subst h0
    rw [NullableSize.encode_of_lt (by decide)] at hn
    exact Yields.pure ⟨⟨Nat.zero_le _, by decide⟩, hn.2⟩
  · next h0 =>
    split
    · next hle =>
      refine (yields_buffer _ _).mono ?_
      rintro bs m ⟨hcap, rfl, rfl⟩
      have hb : bs ≠ [] := by simpa using h0
      refine ⟨⟨hl ▸ hle, hcap⟩, ?_⟩
      rw [Writer.textForm_of_ne_nil hb, List.length_append]
      omega
    · exact Yields.fail _

theorem yields_text : Yields L text fun s k =>
    L.AdmitsText (Text.utf8 s).length ∧ (Writer.textForm (Text.utf8 s)).length ≤ k := by
  refine Yields.view fun r _ => yields_textBytes.bind fun bs k h => ?_
  split
  · next s hs => exact Yields.pure (Text.utf8_of_ofUtf8? hs ▸ h)
  · exact Yields.fail _

end Reader

end TagWire
