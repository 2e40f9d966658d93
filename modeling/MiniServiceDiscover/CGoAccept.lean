import MiniServiceDiscover.CProtocal
import MiniServiceDiscover.GoReply

set_option autoImplicit false

/-! Which buffers the C and the Go receiver accept. Only the Go receiver reads
the magic. -/
namespace MiniServiceDiscover.CGoAccept
open CProtocal GoProtocal GoReply WordSum WireFormat

/-- The two receivers accept or reject a buffer together, with one action, and
never without the magic. -/
structure Agree (data : List UInt8) : Prop where
  accept : (∃ a, decodeAction data = .ok a ∧ a ≠ infoTypeActionInvalid) ↔
    ∃ h, checkAndGetServiceInfoHead data = .ok (some h)
  action : ∀ a h, decodeAction data = .ok a → a ≠ infoTypeActionInvalid →
    checkAndGetServiceInfoHead data = .ok (some h) → a = h.action.toNat
  magic : field 0 data ≠ infoHead →
    decodeAction data = .ok infoTypeActionInvalid ∧ checkAndGetServiceInfoHead data = .ok none

section Receivers
variable {data : List UInt8}

theorem accepted_iff : Accepted data ↔ field 0 data = infoHead ∧ SumRight data := Iff.rfl

theorem checkAndGetServiceInfoHead_some_iff (hd : data.length = packetLen)
    (hl : (field 2 data).toNat ≤ payloadLen) :
    (∃ h, checkAndGetServiceInfoHead data = .ok (some h)) ↔ Accepted data := by
  rw [checkAndGetServiceInfoHead_fits hd fun _ => hl]
  by_cases ha : Accepted data
  · simp [ha]
  · simp [ha]

theorem magic_or_sumWrong (hd : data.length = packetLen)
    (hl : (field 2 data).toNat ≤ payloadLen) (h : Agree data) :
    field 0 data = infoHead ∨ ¬ SumRight data := by
  have hp : (field 2 data).toNat ≤ (payload data).length := (payload_length hd).symm ▸ hl
  by_cases hs : SumRight data
  · have ha := (checkAndGetServiceInfoHead_some_iff hd hl).1
      (h.accept.1 ((decodeAction_valid_iff hp).2 hs))
    exact .inl (accepted_iff.1 ha).1
  · exact .inr hs

end Receivers

/-- The C receiver never reads the magic, so the two agree on a buffer exactly
when it has the magic or a wrong sum. -/
theorem agree_iff (data : List UInt8) (hd : data.length = packetLen)
    (hl : (field 2 data).toNat ≤ payloadLen) :
    Agree data ↔ field 0 data = infoHead ∨ ¬ SumRight data := by
  have hp : (field 2 data).toNat ≤ (payload data).length := (payload_length hd).symm ▸ hl
  refine ⟨magic_or_sumWrong hd hl, fun h => ⟨?_, ?_, ?_⟩⟩
  · rw [decodeAction_valid_iff hp, checkAndGetServiceInfoHead_some_iff hd hl, accepted_iff]
    exact ⟨fun hs => ⟨h.resolve_right (not_not.2 hs), hs⟩, fun ha => ha.2⟩
  · intro a head ha hne hc
    have hs := (decodeAction_valid_iff hp).1 ⟨a, ha, hne⟩
    rw [decodeAction_fits hp, if_pos hs] at ha
    rw [(checkAndGetServiceInfoHead_some hd hc).1, ← Except.ok.inj ha]
    rfl
  · intro hm
    have hs := h.resolve_left hm
    rw [decodeAction_fits hp, if_neg hs, checkAndGetServiceInfoHead_fits hd fun _ => hl,
      if_neg fun ha => hm (accepted_iff.1 ha).1]
    exact ⟨rfl, rfl⟩

/-- No magic, the action of a registration, no payload and its sum. -/
def zeros : List UInt8 := List.replicate packetLen 0

theorem zeros_fits : (field 2 zeros).toNat ≤ payloadLen := by decide

theorem zeros_sumRight : SumRight zeros := by decide

theorem agree_iff_zeros : Agree zeros ↔ field 0 zeros = infoHead ∨ ¬ SumRight zeros :=
  agree_iff zeros List.length_replicate zeros_fits

/-- The C receiver takes a buffer of zeros for a registration, the Go receiver
rejects it. -/
theorem zeros_disagree : decodeAction zeros = .ok 0 ∧
    checkAndGetServiceInfoHead zeros = .ok none ∧ ¬ Agree zeros := by
  have hd : zeros.length = packetLen := List.length_replicate
  have hm : field 0 zeros ≠ infoHead := by decide
  have hp : (field 2 zeros).toNat ≤ (payload zeros).length := (payload_length hd).symm ▸ zeros_fits
  refine ⟨?_, ?_, fun h => ?_⟩
  · rw [decodeAction_fits hp, if_pos zeros_sumRight]
    rfl
  · rw [checkAndGetServiceInfoHead_fits hd fun _ => zeros_fits,
      if_neg fun ha => hm (accepted_iff.1 ha).1]
  · exact (magic_or_sumWrong hd zeros_fits h).elim hm (not_not.2 zeros_sumRight)

end MiniServiceDiscover.CGoAccept
