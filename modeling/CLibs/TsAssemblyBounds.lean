import CLibs.TsSectionBounds

/-!
# What the assembly of packets hands over

`pes_packet` hands over bytes of its stream only: those that were pending and
those of the call.  Its loops end, and it reads nothing of the packet but the
bytes it is given.
-/

namespace CLibs.MpegTs

open List

variable {Cell : Type}

/-! ## Searching -/

theorem mpegH264FindNalu_bounds (bytes : List UInt8) :
    ∀ {i zeros n leading : Nat}, zeros ≤ i →
      mpegH264FindNalu bytes i zeros = some (n, leading) →
      i < n ∧ n < i + bytes.length ∧ leading ≤ n := by
  induction bytes with
  | nil => exact fun _ found => absurd found nofun
  | cons byte rest ih =>
    intro i zeros n leading before found
    cases rest with
    | nil => exact absurd found nofun
    | cons next rest =>
      rw [mpegH264FindNalu] at found
      by_cases code : byte = 0x01 ∧ zeros ≥ 2
      · rw [if_pos code] at found
        obtain ⟨rfl, rfl⟩ := Prod.mk.inj (Option.some.inj found)
        rw [length_cons, length_cons]
        split <;> omega
      · rw [if_neg code] at found
        have bounds := ih (by split <;> omega) found
        simp only [length_cons] at bounds ⊢
        omega

theorem findNewAccessUnit_bounds (rules : UnitRules) (fuel : Nat) :
    ∀ {bytes : List UInt8} {position vcl n : Nat},
      (findNewAccessUnit rules fuel bytes position vcl).1 = some n →
      position ≤ n ∧ n ≤ position + bytes.length ∧ (vcl = 0 → position < n) := by
  induction fuel with
  | zero => exact fun found => absurd found nofun
  | succ fuel ih =>
    intro bytes position vcl n found
    rw [findNewAccessUnit] at found
    cases nalu : mpegH264FindNalu bytes 0 0 with
    | none =>
      rw [nalu] at found
      exact absurd found nofun
    | some place =>
      obtain ⟨offset, leading⟩ := place
      have bounds := mpegH264FindNalu_bounds bytes (Nat.le_refl 0) nalu
      rw [nalu] at found
      dsimp only at found
      by_cases new : vcl > 0 ∧ rules.isNewAccessUnit (bytes.drop offset) = true
      · rw [if_pos new] at found
        obtain rfl := Option.some.inj found
        omega
      · rw [if_neg new] at found
        have further := ih found
        rw [length_drop] at further
        omega

/-! ## Handing over -/

section HandOver

variable (byte : Cell → UInt8)

theorem skipDelimiters_settles (codecid : UInt8) (data : List Cell) (fuel : Nat) :
    ∀ {off i : Nat}, fuel ≠ 0 → data.length < off + fuel →
      Settles (skipDelimiters byte codecid data fuel off i) Contained fun _ => True := by
  induction fuel with
  | zero => exact fun enough => absurd rfl enough
  | succ fuel ih =>
    intro off i _ enough
    rw [skipDelimiters]
    apply Settles.ite
    · intro further
      split
      · exact contained_assertion
      · apply Settles.ite
        · exact fun _ => ih (by omega) (by omega)
        · exact fun _ => trivial
    · exact fun _ => trivial

/-- A delivery of the stream, with bytes that have the property. -/
def DeliveryFrom (pes : Pes Cell) (held : Cell → Prop) (delivery : Delivery Cell) : Prop :=
  delivery.pid = pes.pid ∧ ∀ cell ∈ delivery.data, held cell

variable {held : Cell → Prop} {data : List Cell}

theorem mpegPacketH264H265Filter_ends (answer : Int) (pes : Pes Cell) (pkt : Packet Cell)
    (cells : ∀ cell ∈ data, held cell) :
    Traced.Ends (mpegPacketH264H265Filter byte answer pes pkt data) (DeliveryFrom pes held)
      Contained fun _ => True := by
  unfold mpegPacketH264H265Filter
  apply Traced.Ends.bind (Traced.Ends.lift
    (skipDelimiters_settles byte pkt.codecid data _ (by omega) (by omega)))
  intro start _
  apply Traced.Ends.ite
  · intro _
    apply Traced.Ends.emit
    · exact ⟨rfl, fun cell member => cells cell (mem_of_mem_drop member)⟩
    · exact .pure trivial
  · intro _
    exact .lift ⟨nofun, nofun⟩

theorem handOverUnits_ends (pes : Pes Cell) (handler : Nat → Int) (fuel : Nat) :
    ∀ {calls data p : Nat} {pkt : Packet Cell}, p ≤ pkt.data.length →
      pkt.data.length - p + (if pkt.vcl = 0 then 0 else 1) < fuel →
      (∀ cell ∈ pkt.data, held cell) →
      Traced.Ends (handOverUnits byte pes handler fuel calls data p pkt) (DeliveryFrom pes held)
        Contained fun taken => ∀ cell ∈ taken.1.data, held cell := by
  induction fuel with
  | zero => exact fun _ enough => absurd enough (Nat.not_lt_zero _)
  | succ fuel ih =>
    intro calls data p pkt inside enough cells
    rw [handOverUnits]
    dsimp only
    split
    · apply Traced.Ends.pure
      exact fun cell member => cells cell (mem_of_mem_drop member)
    · rename_i n found
      have bounds := findNewAccessUnit_bounds _ _ found
      rw [length_map, length_drop] at bounds
      apply (mpegPacketH264H265Filter_ends byte _ pes pkt fun cell member =>
        cells cell (mem_of_mem_take (mem_of_mem_drop member))).bind
      intro answer _
      apply Traced.Ends.ite
      · intro _
        apply ih
        · change p + n ≤ pkt.data.length
          omega
        · change pkt.data.length - (p + n) + 0 < fuel
          split at enough <;> omega
        · exact cells
      · intro _
        exact .pure cells

theorem mpegPacketAppend_cells (realloc : Bool) {pkt : Packet Cell}
    (pending : ∀ cell ∈ pkt.data, held cell) (more : ∀ cell ∈ data, held cell) :
    ∀ cell ∈ (mpegPacketAppend realloc pkt data).1.data, held cell := by
  have both : ∀ cell ∈ pkt.data ++ data, held cell := by
    exact forall_mem_append.mpr ⟨pending, more⟩
  unfold mpegPacketAppend
  dsimp only
  split
  · split
    · exact pending
    · split
      · exact both
      · exact pending
  · exact both

theorem handOverPending_ends {pes : Pes Cell} (answer : Int) (start : Bool)
    (cells : ∀ cell ∈ pes.pkt.data, held cell) :
    Traced.Ends (handOverPending pes answer start) (DeliveryFrom pes held) Contained fun taken =>
      ∀ cell ∈ taken.1.data, held cell := by
  unfold handOverPending
  apply Traced.Ends.ite
  · intro _
    apply (Traced.Ends.lift Settles.contained).bind
    intro _ _
    apply Traced.Ends.emit
    · exact ⟨rfl, cells⟩
    · exact .pure fun cell member => absurd member not_mem_nil
  · exact fun _ => .pure cells

theorem handOverComplete_ends (pes : Pes Cell) (answer : Int) {pkt : Packet Cell}
    (cells : ∀ cell ∈ pkt.data, held cell) :
    Traced.Ends (handOverComplete pes answer pkt) (DeliveryFrom pes held) Contained fun taken =>
      ∀ cell ∈ taken.1.data, held cell := by
  unfold handOverComplete
  apply Traced.Ends.ite
  · intro _
    apply (Traced.Ends.lift Settles.contained).bind
    intro _ _
    apply Traced.Ends.emit
    · exact ⟨rfl, fun cell member => cells cell (mem_of_mem_take member)⟩
    · exact .pure fun cell member => absurd member not_mem_nil
  · exact fun _ => .pure cells

/-- What is handed over has been held before or is new. -/
theorem pesPacket_ends (realloc : Bool) (handler : Nat → Int) {pes : Pes Cell}
    (start : Bool) (pending : ∀ cell ∈ pes.pkt.data, held cell)
    (more : ∀ cell ∈ data, held cell) :
    Traced.Ends (pesPacket byte realloc handler pes data start) (DeliveryFrom pes held) Contained
      fun taken => ∀ cell ∈ taken.1.data, held cell := by
  unfold pesPacket
  apply Traced.Ends.ite
  · intro _
    have cells := mpegPacketAppend_cells realloc pending more
    apply Traced.Ends.ite
    · intro _
      unfold mpegPacketH264H265
      apply handOverUnits_ends byte pes handler
      · split <;> omega
      · split <;> split <;> omega
      · exact cells
    · exact fun _ => .pure cells
  · intro _
    apply (Traced.Ends.lift Settles.contained).bind
    intro _ _
    apply (handOverPending_ends _ start pending).bind
    intro taken left
    have cells := mpegPacketAppend_cells realloc left more
    apply Traced.Ends.ite
    · intro _
      apply Traced.Ends.ite
      · exact fun _ => handOverComplete_ends pes _ cells
      · exact fun _ => .pure cells
    · exact fun _ => .pure left

end HandOver

end CLibs.MpegTs
