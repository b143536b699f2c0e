import FirmwareUpdate.Proofs.Device.Polling

/-! A flash device that is ready erases what it is asked to, as long as the sectors have addresses after them: past the
last address of all there is none, and the erasing of the last sector traps. -/
namespace FirmwareUpdate

namespace FlashLink
variable {l : FlashLink} {start length : Nat}

/-- The device is on, none of its calls is failed, and after each it is idle again before it is given up. -/
structure Ready (l : FlashLink) : Prop where
  on : l.device.initialized = true
  quiet : ∀ point count, l.schedule point count = none
  prompt : l.device.busySpan ≤ Flash.pollLimit

private theorem eraseRange_of_ready (hready : l.Ready) (h : l.device.geometry.contains start length = true)
    (hstart : l.device.geometry.isSector start = true) (hlength : length % l.device.geometry.sector = 0) :
    (erase start length >>= fun _ => awaitReady : Call Unit).Ends l
      (fun _ m => m.Ready ∧ m.device.geometry = l.device.geometry) (fun _ _ => False) False := by
  have hblank := change_of_prompt .erase hready.quiet (Flash.erase_of_on hready.on h hstart hlength) hready.prompt
  exact (Action.ends_of_ok hblank).mpr ⟨⟨hready.on, hready.quiet, hready.prompt⟩, rfl⟩

/-- Where a device that is ready stops short: at the last sector, if no address comes after it. -/
theorem eraseFrom_of_ready (count : Nat) (l : FlashLink) (start : Nat) (hready : l.Ready)
    (h : AtSectors l.device.geometry count start) :
    (eraseFrom count start).Ends l
      (fun _ _ => count = 0 ∨ start + count * l.device.geometry.sector < UInt32.size) (fun _ _ => False)
      (count ≠ 0 ∧ UInt32.size ≤ start + count * l.device.geometry.sector) := by
  induction count generalizing l start with
  | zero => exact Or.inl rfl
  | succ count ih =>
    have hsum : start + (count + 1) * l.device.geometry.sector =
        start + l.device.geometry.sector + count * l.device.geometry.sector := by
      rw [Nat.add_mul, Nat.one_mul]
      omega
    rw [hsum]
    simp only [eraseFrom]
    refine (nextSector_ends h).bind ?_ (fun _ _ h => h.elim) fun hword => ⟨count.succ_ne_zero, by omega⟩
    rintro _ _ ⟨rfl, rfl, hlt⟩
    simp only [Nat.add_sub_cancel_left]
    rw [← bind_assoc]
    refine (eraseRange_of_ready hready h.contains h.isSector (Nat.mod_self _)).bind ?_ (fun _ _ h => h) False.elim
    rintro _ m ⟨hm, hgeometry⟩
    have hih := ih m (start + l.device.geometry.sector) hm (hgeometry ▸ h.next)
    rw [hgeometry] at hih
    refine hih.imp ?_ (fun _ _ h => h) fun htop => ⟨count.succ_ne_zero, htop.2⟩
    rintro _ _ (rfl | hlt')
    · exact Or.inr (by omega)
    · exact Or.inr hlt'

end FlashLink
end FirmwareUpdate
