import MiniServiceDiscover.GoSweep
import MiniServiceDiscover.JavaInquiry
import MiniServiceDiscover.JavaSweep

set_option autoImplicit false

/-! How far the sweep of a call gets before the call has read, in the Go library and
in the Java clients. -/
namespace MiniServiceDiscover.SweepCoverage
open StepRuns AddressSweep

section Coverage

end Coverage

section Examples

def search : JavaSweep.Call := .runSearch (some JavaInquiry.playMusicName)

theorem search_packet : ∃ data, search.packet JavaJsonText.textJson = .ok data := by
  have hlen := JavaJsonText.textJson_documented.printLength
    (JavaDaemon.serviceMap ⟨some [], some JavaInquiry.playMusicName, some [], some [], 0⟩)
  exact JavaSweep.getInquiryPkt_ok _ (hlen.trans (by decide))

/-- Even a first one does, where `receive` takes the field before the packet is sent. -/
theorem first_sweep_thrown : ∃ acts u, Runs (JavaSweep.step JavaJsonText.textJson)
      (fun _ _ => True) (JavaSweep.init .inquiryClient false) acts u ∧ u.calls = [search] ∧
    ∃ t ∈ u.tasks, CutShort JavaSweep.lastHost t.loop ∧ t.loop.sent = [] ∧
      t.call ∉ u.firstReads := by
  obtain ⟨data, hd⟩ := search_packet
  exact ⟨_, _, JavaSweep.runs_swapped rfl hd, rfl, _, List.mem_singleton_self _,
    ⟨rfl, (by decide : 0 < 254)⟩, rfl, List.not_mem_nil⟩

end Examples

end MiniServiceDiscover.SweepCoverage
