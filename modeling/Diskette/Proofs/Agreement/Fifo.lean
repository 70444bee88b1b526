import Diskette.Proofs.Agreement.Receiver

/-!
The routines on the data port, and what the controller is told by them. Payload bytes tell it nothing, whatever they
are.
-/
namespace Diskette

open Simulated (Order)

namespace Receiver

variable {base : UInt16} {α : Type} {x y : Receiver}

/-- A window opens on no command and no channel. What is told in it is told for good. -/
theorem ensures_uninterrupted {p : Routine α} {Q : α → Receiver → Prop}
    (h : ∀ y : Receiver, y.wire.due = x.wire.due → y.wire.command = [] → y.wire.loaded = false → y.pulsed = false →
      y.nonDma = x.nonDma → p.Ensures (heeded base) (fun a z => ∀ z' : Receiver, z'.wire.due = z.wire.due →
        z'.nonDma = z.nonDma → Q a z') y) :
    (Platform.uninterrupted p).Ensures (heeded base) Q x := by
  refine ⟨trivial, ?_⟩
  rintro b _ rfl
  have hp := h ((listener base).hear x ⟨.suppress, b⟩) rfl rfl rfl rfl rfl
  refine (Program.ensures_bind (p := p)).mpr (hp.mono fun a z hz => ?_)
  refine ⟨trivial, ?_⟩
  rintro - _ rfl
  exact hz _ rfl rfl

/-- A byte of a command goes out. -/
theorem ensures_output {value : UInt8} (hdue : x.wire.due = 0) (hpulsed : x.pulsed = false)
    (hbegins : x.Begins value → x.nonDma = some (!x.wire.loaded)) :
    (Platform.output (Port.data base) value).Ensures (heeded base) (fun _ y =>
      y.wire = { x.wire.put value with status := none } ∧ y.pulsed = false ∧
        y.nonDma = (Opcode.nonDma (x.wire.command ++ [value])).or x.nonDma) x := by
  refine ⟨fun _ => hbegins, ?_⟩
  rintro - _ rfl
  refine ⟨by simp [listener, wire_hear, Wire.hear], ?_, ?_⟩
  · simp [listener, hear, hpulsed, not_resets_data]
  · simp [listener, hear, hdue, hpulsed, not_resets_data]

/-- The last byte of a command leaves its payload due, unless a channel has been set up for it. -/
theorem ensures_lastByte {value : UInt8} (hdue : x.wire.due = 0) (hpulsed : x.pulsed = false)
    (hwhole : (x.wire.command ++ [value]).length = Order.length ((x.wire.command ++ [value]).headD 0))
    (hbegins : x.Begins value → x.nonDma = some (!x.wire.loaded)) :
    (Platform.output (Port.data base) value).Ensures (heeded base) (fun _ y =>
      y.wire.due = (if x.wire.loaded then 0 else (Order.ofBytes (x.wire.command ++ [value])).payload) ∧
        y.nonDma = (Opcode.nonDma (x.wire.command ++ [value])).or x.nonDma) x := by
  refine (ensures_output hdue hpulsed hbegins).mono ?_
  rintro - y ⟨hwire, -, hnonDma⟩
  refine ⟨?_, hnonDma⟩
  rw [hwire]
  cases hl : x.wire.loaded <;> simp [Wire.put, hdue, hl, hwhole]

/-- Part of a command says nothing. -/
theorem ensures_earlyByte {value : UInt8} (hdue : x.wire.due = 0) (hpulsed : x.pulsed = false)
    (hpart : (x.wire.command ++ [value]).length ≠ Order.length ((x.wire.command ++ [value]).headD 0))
    (hbegins : x.Begins value → x.nonDma = some (!x.wire.loaded)) :
    (Platform.output (Port.data base) value).Ensures (heeded base) (fun _ y =>
      y.wire.command = x.wire.command ++ [value] ∧ y.wire.loaded = x.wire.loaded ∧ y.wire.due = 0 ∧
        y.pulsed = false ∧ y.nonDma = x.nonDma) x := by
  refine (ensures_output hdue hpulsed hbegins).mono ?_
  rintro - y ⟨hwire, hpulsed', hnonDma⟩
  have hnone : Opcode.nonDma (x.wire.command ++ [value]) = none := by
    cases hbit : Opcode.nonDma (x.wire.command ++ [value]) with
    | none => rfl
    | some bit => exact absurd (Opcode.length_of_nonDma hbit) hpart
  have hput : y.wire = { x.wire with status := none, command := x.wire.command ++ [value], due := 0 } := by
    rw [hwire]
    simp only [Wire.put, hdue, hpart, false_and, if_true, if_false]
  exact ⟨by rw [hput], by rw [hput], by rw [hput], hpulsed', by rw [hnonDma, hnone, Option.none_or]⟩

/-- The rest of a command goes out. Once it is out, what it leaves due is its payload, unless a channel has been set
up for it, and if it was a Specify, the controller has been told. -/
theorem ensures_sendFrom (total : Nat) (bytes : List UInt8) (sent : Nat) (x : Receiver) (hne : bytes ≠ [])
    (hdue : x.wire.due = 0) (hpulsed : x.pulsed = false)
    (hwhole : (x.wire.command ++ bytes).length = Order.length ((x.wire.command ++ bytes).headD 0))
    (hbegins : x.Begins (bytes.headD 0) → x.nonDma = some (!x.wire.loaded)) :
    (Fifo.sendFrom base total bytes sent).Ensures (heeded base) (fun r y => match r with
      | .ok _ => y.wire.due = (if x.wire.loaded then 0 else (Order.ofBytes (x.wire.command ++ bytes)).payload) ∧
        y.nonDma = (Opcode.nonDma (x.wire.command ++ bytes)).or x.nonDma
      | .error _ => y.wire.due = 0) x := by
  induction bytes generalizing x sent with
  | nil => exact absurd rfl hne
  | cons b rest ih =>
    have hwritable : (Fifo.writable base).Only (Wire.Quiet base) :=
      .bind ((Fifo.only_awaitReadyWithin _).mono fun _ => Wire.quiet_of_looks) fun status => by
        cases status <;> exact .done
    refine Program.ensures_bind.mpr ((ensures_kept hwritable x).mono ?_)
    rintro r x₁ ⟨hstill, hpulsed₁, hnonDma₁⟩
    have hcommand : x₁.wire.command = x.wire.command := hstill.command
    have hloaded : x₁.wire.loaded = x.wire.loaded := hstill.loaded
    have hdue₁ : x₁.wire.due = 0 := hstill.due.trans hdue
    have hbegins₁ : x₁.Begins b → x₁.nonDma = some (!x₁.wire.loaded) := by
      intro h
      rw [hnonDma₁, hloaded]
      exact hbegins ⟨hdue, hcommand.symm.trans h.command, h.carriesData⟩
    rw [Program.ensures_ite]
    split
    case isFalse => exact hdue₁
    case isTrue =>
      rw [← hcommand, ← hloaded, ← hnonDma₁]
      rw [← hcommand] at hwhole
      cases rest with
      | nil => exact Program.ensures_bind.mpr (ensures_lastByte hdue₁ (hpulsed₁.trans hpulsed) hwhole hbegins₁)
      | cons b' rest =>
        have hpart := Order.length_ne_of_more hwhole
        refine Program.ensures_bind.mpr ((ensures_earlyByte hdue₁ (hpulsed₁.trans hpulsed) hpart hbegins₁).mono ?_)
        rintro - y ⟨hcommand₂, hloaded₂, hdue₂, hpulsed₂, hnonDma₂⟩
        have hmore : y.wire.command ≠ [] := by simp [hcommand₂]
        refine (ih (sent + 1) y (by simp) hdue₂ hpulsed₂ ?_ fun h => absurd h.command hmore).mono ?_
        · simpa [hcommand₂] using hwhole
        · intro r z hz
          rw [hcommand₂, hloaded₂, hnonDma₂] at hz
          simpa using hz

/-- A command goes out in a window of its own. -/
theorem ensures_send {bytes : List UInt8} (hframed : Wire.Framed bytes) (hdue : x.wire.due = 0)
    (hpulsed : x.pulsed = false) (hcommand : x.wire.command = [])
    (hbegins : Opcode.CarriesData (bytes.headD 0) → x.nonDma = some (!x.wire.loaded)) :
    (Fifo.send base bytes).Ensures (heeded base) (fun r y => match r with
      | .ok _ => y.wire.due = (if x.wire.loaded then 0 else (Order.ofBytes bytes).payload) ∧
        y.nonDma = (Opcode.nonDma bytes).or x.nonDma
      | .error _ => y.wire.due = 0) x := by
  have hsend : _ → _ → (Fifo.sendFrom base bytes.length bytes 0).Ensures (heeded base) _ x :=
    ensures_sendFrom bytes.length bytes 0 x hframed.1 hdue hpulsed
  simp only [hcommand, List.nil_append] at hsend
  exact hsend hframed.2 fun h => hbegins h.carriesData

/-- A command without a payload, from its first byte to the end of its result. -/
theorem ensures_transact {bytes : List UInt8} (n : ResultLength) (hframed : Wire.Framed bytes)
    (hpayload : (Order.ofBytes bytes).payload = 0) (hplain : ¬Opcode.CarriesData (bytes.headD 0))
    (hdue : x.wire.due = 0) :
    (Fifo.transact base bytes n).Ensures (heeded base) (fun r y => y.wire.due = 0 ∧
      ∀ result, r = .ok result → y.nonDma = (Opcode.nonDma bytes).or x.nonDma) x := by
  have hsend : (Platform.uninterrupted (Fifo.send base bytes)).Ensures (heeded base) (fun r y => y.wire.due = 0 ∧
      ∀ u, r = .ok u → y.nonDma = (Opcode.nonDma bytes).or x.nonDma) x := by
    refine ensures_uninterrupted fun y hdue' hcommand _ hpulsed hnonDma => ?_
    have hbytes : (Fifo.send base bytes).Ensures (heeded base) _ y :=
      ensures_send hframed (hdue'.trans hdue) hpulsed hcommand fun hdata => absurd hdata hplain
    refine hbytes.mono ?_
    rintro (cause | u) z hz z' hdue'' hnonDma''
    · exact ⟨hdue''.trans hz, nofun⟩
    · obtain ⟨hz, htold⟩ := hz
      refine ⟨hdue''.trans (hz.trans (by rw [hpayload, ite_self])), fun _ _ => ?_⟩
      rw [hnonDma'', htold, hnonDma]
  have hrest : Program.Only (Aside base) (ExceptT.run do
      ExceptT.mk (Fifo.awaitAnswer base n)
      let result ← ExceptT.mk (Platform.uninterrupted (Fifo.receive base n))
      ExceptT.mk (Fifo.finish base)
      return result) := by
    have hlooks : ∀ {β : Type} {p : Routine β}, p.Only (Fifo.Looks base) → p.Only (Aside base) :=
      fun hp => hp.mono fun _ => aside_of_looks
    refine .run_bind (hlooks (Fifo.only_awaitAnswer n)) fun _ => ?_
    have hreceive : (Fifo.receive base n).Only (Plain base none) := only_receive_plain n
    refine .run_bind (Platform.only_uninterrupted (by trivial) (by intro; trivial)
      (hreceive.mono fun _ => aside_of_plain)) fun _ => ?_
    exact .run_bind (hlooks Fifo.only_finish) fun _ => .done
  refine Program.ensures_run_bind.mpr (hsend.mono ?_)
  rintro (cause | u) y ⟨hy, htold⟩
  · exact ⟨hy, nofun⟩
  refine (ensures_aside hrest hy).mono fun r z hz => ⟨hz.1, fun _ _ => ?_⟩
  exact hz.2.trans (htold u rfl)

/-- Bytes that are read are no longer due. -/
theorem ensures_readSectors (size count : Nat) (hdue : count * size ≤ x.wire.due) :
    (Operation.readSectors base size count).Ensures (heeded base)
      (fun bytes y => bytes.length + y.wire.due = x.wire.due ∧ y.nonDma = x.nonDma) x := by
  have hkept : (Operation.readSectors base size count).Ensures (heeded base) (fun _ y => y.nonDma = x.nonDma) x := by
    have hbrief : (Operation.readSectors base size count).Only (Brief base none) := only_readSectors_brief size count
    refine hbrief.ensures (K := fun y : Receiver => y.nonDma = x.nonDma) ?_ rfl
    intro y call hcall hy
    have haside : Aside base call := aside_of_plain (plain_of_brief hcall)
    refine ⟨permits_of_aside haside, ?_⟩
    rintro r _ rfl
    exact (nonDma_aside haside).trans hy
  have hwire : ∀ (x : Receiver) c r y, (heeded base).follows x c r y → (Wire.tapped base).follows x.wire c r y.wire := by
    rintro x c r _ rfl
    exact wire_hear
  refine (Program.Ensures.seen hwire (Wire.ensures_readSectors size count x.wire hdue) hkept).mono ?_
  rintro bytes y ⟨⟨-, hlength⟩, hnonDma⟩
  exact ⟨hlength, hnonDma⟩

/-- Bytes that are written are no longer due. -/
theorem ensures_givePayload (ms : Nat) (bytes : List UInt8) (given : Nat) (x : Receiver)
    (hdue : bytes.length ≤ x.wire.due) :
    (Fifo.givePayload base ms bytes given).Ensures (heeded base)
      (fun sent y => sent + y.wire.due = given + x.wire.due ∧ y.nonDma = x.nonDma) x := by
  induction bytes generalizing given x with
  | nil => exact ⟨rfl, rfl⟩
  | cons b rest ih =>
    refine Program.ensures_bind.mpr ((ensures_kept ((Fifo.only_payloadReady _ _).mono fun _ =>
      Wire.quiet_of_looks) x).mono ?_)
    rintro r x₁ ⟨hstill, -, hnonDma₁⟩
    have hdue₁ : x₁.wire.due = x.wire.due := hstill.due
    rw [Program.ensures_ite]
    split
    case isFalse => exact ⟨by rw [hdue₁], hnonDma₁⟩
    case isTrue =>
      simp only [List.length_cons] at hdue
      have hsome : x₁.wire.due ≠ 0 := by omega
      have hbyte : (Platform.output (Port.data base) b).Ensures (heeded base) (fun _ y =>
          y.wire.due = x₁.wire.due - 1 ∧ y.nonDma = x₁.nonDma) x₁ := by
        refine ⟨fun _ hbegins => absurd hbegins.due hsome, ?_⟩
        rintro - _ rfl
        refine ⟨?_, by simp [listener, hear, hsome, not_resets_data]⟩
        simp [listener, wire_hear, Wire.hear, Wire.put, hsome]
      refine Program.ensures_bind.mpr (hbyte.mono ?_)
      rintro - y ⟨hdue₂, hnonDma₂⟩
      refine (ih (given + 1) y (by omega)).mono ?_
      rintro sent z ⟨hsum, hnonDma⟩
      exact ⟨by omega, hnonDma.trans (hnonDma₂.trans hnonDma₁)⟩

theorem ensures_writeSectors (size count : Nat) (bytes : List UInt8) (x : Receiver)
    (hdue : count * size ≤ x.wire.due) :
    (Operation.writeSectors base size count bytes).Ensures (heeded base)
      (fun sent y => sent + y.wire.due = x.wire.due ∧ y.nonDma = x.nonDma) x := by
  induction count generalizing bytes x with
  | zero => exact ⟨Nat.zero_add _, rfl⟩
  | succ count ih =>
    rw [Nat.succ_mul] at hdue
    refine Program.ensures_bind.mpr ((ensures_kept ((Fifo.only_awaitStatus _ _).mono fun _ =>
      Wire.quiet_of_looks) x).mono ?_)
    rintro - x₁ ⟨hstill, -, hnonDma₁⟩
    have hdue₁ : x₁.wire.due = x.wire.due := hstill.due
    have hsector : (Platform.uninterrupted (Fifo.writePayload base Operation.byteTimeout (bytes.take size))).Ensures
        (heeded base) (fun sent y => sent + y.wire.due = x₁.wire.due ∧ y.nonDma = x₁.nonDma) x₁ := by
      refine ensures_uninterrupted fun y hdue' _ _ _ hnonDma => ?_
      have htake : (bytes.take size).length ≤ y.wire.due := by
        rw [List.length_take]
        omega
      have hgive : (Fifo.givePayload base Operation.byteTimeout (bytes.take size) 0).Ensures (heeded base) _ y :=
        ensures_givePayload _ _ 0 y htake
      refine hgive.mono ?_
      rintro sent z ⟨hsum, hz⟩ z' hdue'' hnonDma''
      exact ⟨by omega, hnonDma''.trans (hz.trans hnonDma)⟩
    refine Program.ensures_bind.mpr (hsector.mono ?_)
    rintro sent x₂ ⟨hsum, hnonDma₂⟩
    rw [Program.ensures_ite]
    split
    case isFalse => exact ⟨by omega, hnonDma₂.trans hnonDma₁⟩
    case isTrue hwhole =>
      refine Program.ensures_bind.mpr ((ih _ x₂ (by omega)).mono ?_)
      rintro rest y ⟨hrest, hnonDma⟩
      exact ⟨by omega, hnonDma.trans (hnonDma₂.trans hnonDma₁)⟩

end Receiver
end Diskette
