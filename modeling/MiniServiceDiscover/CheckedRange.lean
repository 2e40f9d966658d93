import MiniServiceDiscover.WireFormat

set_option autoImplicit false

/-! The part of a buffer its checksum covers, and the buffers that differ only
behind it. -/
namespace MiniServiceDiscover.CheckedRange
open WireFormat

/-- The payload bytes the header counts. -/
def counted (data : List UInt8) : List UInt8 := (payload data).take (field 2 data).toNat

/-- What stands behind the counted bytes. -/
def uncounted (data : List UInt8) : List UInt8 := (payload data).drop (field 2 data).toNat

/-- The two buffers have one header and the same counted bytes. -/
structure SameChecked (a b : List UInt8) : Prop where
  header : a.take headLen = b.take headLen
  counted : counted a = counted b

/-- The buffer with other bytes behind the counted ones. -/
def withTail (data tail : List UInt8) : List UInt8 := data.take headLen ++ (counted data ++ tail)

section Tails
variable {a b data tail : List UInt8}

theorem SameChecked.field (h : SameChecked a b) (k : ℕ) (hk : k < 4) : field k a = field k b := by
  rw [← field_take k hk a, h.header, field_take k hk]

theorem payload_eq (data : List UInt8) : payload data = counted data ++ uncounted data :=
  (List.take_append_drop _ _).symm

theorem counted_length (hd : data.length = packetLen) (hl : (field 2 data).toNat ≤ payloadLen) :
    (counted data).length = (field 2 data).toNat := by
  rw [counted, List.length_take, payload_length hd, Nat.min_eq_left hl]

theorem uncounted_length (hd : data.length = packetLen) :
    (uncounted data).length = payloadLen - (field 2 data).toNat := by
  rw [uncounted, List.length_drop, payload_length hd]

theorem take_headLen_length (hd : data.length = packetLen) : (data.take headLen).length = headLen := by
  rw [List.length_take, hd]
  rfl

theorem payload_withTail (hd : data.length = packetLen) :
    payload (withTail data tail) = counted data ++ tail :=
  List.drop_left' (take_headLen_length hd)

theorem withTail_length (hd : data.length = packetLen) (hl : (field 2 data).toNat ≤ payloadLen)
    (ht : tail.length = payloadLen - (field 2 data).toNat) :
    (withTail data tail).length = packetLen := by
  rw [withTail, List.length_append, List.length_append, take_headLen_length hd,
    counted_length hd hl, ht, Nat.add_sub_cancel' hl]
  rfl

theorem withTail_same (hd : data.length = packetLen) (hl : (field 2 data).toNat ≤ payloadLen) :
    SameChecked data (withTail data tail) := by
  have hh : (withTail data tail).take headLen = data.take headLen :=
    List.take_left' (take_headLen_length hd)
  refine ⟨hh.symm, ?_⟩
  have hf : WireFormat.field 2 (withTail data tail) = WireFormat.field 2 data := by
    rw [← field_take 2 (by decide), hh, field_take 2 (by decide)]
  rw [counted, counted, hf, payload_withTail hd, List.take_left' (counted_length hd hl)]
  rfl

/-- A buffer with the same checked part is the first one with another tail. -/
theorem SameChecked.eq_withTail (h : SameChecked a b) : b = withTail a (uncounted b) := by
  rw [withTail, h.header, h.counted, ← payload_eq]
  exact (List.take_append_drop _ _).symm

theorem SameChecked.refl (data : List UInt8) : SameChecked data data := ⟨rfl, rfl⟩

/-- A header that counts the whole payload leaves nothing open. -/
theorem SameChecked.eq_of_full (h : SameChecked a b) (ha : a.length = packetLen)
    (hb : b.length = packetLen) (hl : (WireFormat.field 2 a).toNat = payloadLen) : b = a := by
  have tailNil : ∀ {c : List UInt8}, c.length = packetLen →
      (WireFormat.field 2 c).toNat = payloadLen → uncounted c = [] := by
    intro c hc hf
    apply List.length_eq_zero_iff.1
    rw [uncounted_length hc, hf, Nat.sub_self]
  rw [h.eq_withTail, tailNil hb (h.field 2 (by decide) ▸ hl), ← tailNil ha hl]
  exact ((SameChecked.refl a).eq_withTail).symm

end Tails

end MiniServiceDiscover.CheckedRange
