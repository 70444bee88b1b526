import Diskette.Proofs.Spinning.Basic
import Diskette.Proofs.Wire.Fifo

/-!
The routines on the data port, as far as the drives go. What goes out of a command is the beginning of it, and
nothing in a payload begins one.
-/
namespace Diskette

open Simulated (Order)

variable {α : Type} {base : UInt16} {terms : Terms} {t : History Platform} {bytes : List UInt8} {p : Routine α}

/-- A command may go out, after what was last written to the output register. -/
def Terms.Grants (terms : Terms) (last : Option UInt8) (bytes : List UInt8) : Prop :=
  Opcode.NeedsMotor (bytes.headD 0) → ∀ spoken, spoken <+: bytes → terms.speaks last spoken

theorem minded_passive (hp : p.Only Passive) : p.Ensures (minded base terms) (fun _ _ => True) t :=
  hp.ensures (K := fun _ => True) (fun _ _ hcall _ => ⟨permits_of_passive hcall, fun _ _ _ => trivial⟩) trivial

/-- Looks at the status leave the wire still, and the registers as they are. -/
theorem minded_glances (hp : p.Only (Fifo.Glances base)) : p.Ensures (minded base terms) (fun _ t' =>
    Wire.Still (Wire.heard base t) (Wire.heard base t') ∧
      lastWritten (Port.digitalOutput base) t' = lastWritten (Port.digitalOutput base) t) t := by
  have hstill : p.Ensures (Wire.tapped base) (fun _ w => Wire.Still (Wire.heard base t) w) (Wire.heard base t) :=
    Wire.ensures_still (hp.mono fun _ hcall => Wire.quiet_of_looks (Fifo.looks_of_glances hcall)) _
  have hwritten : p.Ensures recorded (fun _ t' =>
      lastWritten (Port.digitalOutput base) t' = lastWritten (Port.digitalOutput base) t) t := by
    refine (hp.recorded t).mono ?_
    rintro _ _ ⟨u, rfl, hu⟩
    have hnone : lastWritten (Port.digitalOutput base) u = none :=
      lastWritten_eq_none fun e he value hcall => by
        have hglance := hu e he
        rw [hcall] at hglance
        exact hglance
    simp [hnone]
  have hpassive : p.Ensures (minded base terms) (fun _ _ => True) t :=
    minded_passive (hp.mono fun _ => passive_of_glances)
  exact (hstill.with_wire (hwritten.with_record hpassive)).mono fun _ _ h => ⟨h.1, h.2.1⟩

theorem minded_output {value : UInt8} {Q : Unit → History Platform → Prop}
    (h : ∀ spoken, (Wire.heard base t).Spells value spoken →
      terms.speaks (lastWritten (Port.digitalOutput base) t) spoken)
    (hQ : Q () (t ++ [⟨.output (Port.data base) value, ()⟩])) :
    (Platform.output (Port.data base) value).Ensures (minded base terms) Q t := by
  refine ⟨⟨fun hport => absurd hport.symm Wire.digitalOutput_ne_data, fun _ => h⟩, ?_⟩
  rintro - _ rfl
  exact hQ

/-- The rest of a command goes out. -/
theorem minded_sendFrom (total : Nat) (bytes : List UInt8) (sent : Nat) (t : History Platform)
    (hdue : (Wire.heard base t).due = 0) (hframed : Wire.Framed ((Wire.heard base t).command ++ bytes))
    (hgrants : terms.Grants (lastWritten (Port.digitalOutput base) t) ((Wire.heard base t).command ++ bytes)) :
    (Fifo.sendFrom base total bytes sent).Ensures (minded base terms) (fun _ _ => True) t := by
  -- with a byte to come the command is not whole yet, and the wire holds what has gone out of it
  induction bytes generalizing sent t with
  | nil => trivial
  | cons b rest ih =>
    refine Program.ensures_bind.mpr ((minded_glances Fifo.glances_writable).mono ?_)
    rintro ready t₁ ⟨hstill, houtput⟩
    rw [Program.ensures_ite]
    split
    case isFalse => trivial
    case isTrue =>
      rw [← hstill.command] at hframed hgrants
      rw [← houtput] at hgrants
      have hdue₁ : (Wire.heard base t₁).due = 0 := hstill.due.trans hdue
      have hspoken : ∀ spoken, (Wire.heard base t₁).Spells b spoken →
          terms.speaks (lastWritten (Port.digitalOutput base) t₁) spoken := by
        rintro _ ⟨-, rfl, hneeds⟩
        exact hgrants (Order.headD_append_cons _ rest b ▸ hneeds) _ ⟨rest, by simp⟩
      refine Program.ensures_bind.mpr (minded_output hspoken ?_)
      cases rest with
      | nil => trivial
      | cons b' rest =>
        have hput := Wire.put_part hdue₁ hframed.2
        have hnext : (Wire.heard base (t₁ ++ [⟨.output (Port.data base) b, ()⟩])).due = 0 ∧
            (Wire.heard base (t₁ ++ [⟨.output (Port.data base) b, ()⟩])).command =
              (Wire.heard base t₁).command ++ [b] := by
          rw [Wire.heard_snoc]
          simp only [Wire.hear, if_true, hput, and_self]
        refine ih _ _ hnext.1 ?_ ?_
        · rw [hnext.2]
          simpa using hframed
        · rw [hnext.2]
          simpa [Wire.digitalOutput_ne_data.symm] using hgrants

/-- A command goes out in a window of its own. -/
theorem minded_send (hdue : (Wire.heard base t).due = 0) (hcommand : (Wire.heard base t).command = [])
    (hframed : Wire.Framed bytes) (hgrants : terms.Grants (lastWritten (Port.digitalOutput base) t) bytes) :
    (Fifo.send base bytes).Ensures (minded base terms) (fun _ _ => True) t :=
  minded_sendFrom _ _ _ _ hdue (by rwa [hcommand]) (by rwa [hcommand])

theorem minded_uninterrupted (h : ∀ b, p.Ensures (minded base terms) (fun _ _ => True) (t ++ [⟨.suppress, b⟩])) :
    (Platform.uninterrupted p).Ensures (minded base terms) (fun _ _ => True) t := by
  refine ⟨trivial, ?_⟩
  rintro b _ rfl
  refine (Program.ensures_bind (p := p)).mpr ((h b).mono fun _ _ _ => ?_)
  exact ⟨trivial, fun _ _ _ => trivial⟩

/-- A command that needs no motor, from its first byte to the end of its result. -/
theorem minded_transact (n : ResultLength) (hplain : ¬Opcode.NeedsMotor (bytes.headD 0))
    (hframed : Wire.Framed bytes) (hdue : (Wire.heard base t).due = 0) :
    (Fifo.transact base bytes n).Ensures (minded base terms) (fun _ _ => True) t := by
  have hsend : (Platform.uninterrupted (Fifo.send base bytes)).Ensures (minded base terms) (fun _ _ => True) t := by
    refine minded_uninterrupted fun b => minded_send ?_ ?_ hframed fun hneeds => absurd hneeds hplain
    · rw [Wire.heard_snoc]
      exact hdue
    · rw [Wire.heard_snoc]
      rfl
  have hbrief : ∀ {β : Type} {p : Routine β}, p.Only (Brief base none) → p.Only Passive :=
    fun hp => hp.mono fun _ => passive_of_brief
  have hrest : Program.Only Passive (ExceptT.run do
      ExceptT.mk (Fifo.awaitAnswer base n)
      let result ← ExceptT.mk (Platform.uninterrupted (Fifo.receive base n))
      ExceptT.mk (Fifo.finish base)
      return result) := by
    refine .run_bind ((Fifo.glances_awaitAnswer n).mono fun _ => passive_of_glances) fun _ => ?_
    refine .run_bind (Platform.only_uninterrupted (by trivial) (by intro; trivial)
      (hbrief (only_receive_brief n))) fun _ => ?_
    exact .run_bind (Fifo.glances_finish.mono fun _ => passive_of_glances) fun _ => .done
  refine Program.ensures_run_bind.mpr (hsend.mono ?_)
  rintro (cause | _) t' -
  · trivial
  · exact minded_passive hrest

/-- As long as bytes are due, no byte begins a command. -/
theorem minded_givePayload (ms : Nat) (bytes : List UInt8) (given : Nat) (t : History Platform)
    (hdue : bytes.length ≤ (Wire.heard base t).due) :
    (Fifo.givePayload base ms bytes given).Ensures (minded base terms) (fun _ _ => True) t := by
  induction bytes generalizing given t with
  | nil => trivial
  | cons b rest ih =>
    refine Program.ensures_bind.mpr ((minded_glances (Fifo.glances_payloadReady _ _)).mono ?_)
    rintro ready t₁ ⟨hstill, -⟩
    rw [Program.ensures_ite]
    split
    case isFalse => trivial
    case isTrue =>
      simp only [List.length_cons, ← hstill.due] at hdue
      have hsome : (Wire.heard base t₁).due ≠ 0 := by omega
      refine Program.ensures_bind.mpr (minded_output (fun _ hspells => absurd hspells.due hsome) (ih _ _ ?_))
      rw [Wire.heard_snoc]
      simp only [Wire.hear, if_true, Wire.put, if_neg hsome]
      omega

theorem minded_writeSectors (size count : Nat) (bytes : List UInt8) (t : History Platform)
    (hdue : count * size ≤ (Wire.heard base t).due) :
    (Operation.writeSectors base size count bytes).Ensures (minded base terms) (fun _ _ => True) t := by
  induction count generalizing bytes t with
  | zero => trivial
  | succ count ih =>
    rw [Nat.succ_mul] at hdue
    refine Program.ensures_bind.mpr ((minded_glances (Fifo.glances_awaitStatus _ _)).mono ?_)
    rintro - t₁ ⟨hstill, -⟩
    have hsize : (bytes.take size).length ≤ (Wire.heard base t₁).due := by
      rw [List.length_take, hstill.due]
      omega
    have hsector : (Platform.uninterrupted (Fifo.writePayload base Operation.byteTimeout (bytes.take size))).Ensures
        (minded base terms) (fun _ _ => True) t₁ := by
      refine minded_uninterrupted fun b => minded_givePayload _ _ _ _ ?_
      rw [Wire.heard_snoc]
      exact hsize
    refine Program.ensures_bind.mpr (((Wire.ensures_writePayload _ _ _ hsize).with_wire hsector).mono ?_)
    rintro sent t₂ ⟨⟨-, hsum⟩, -⟩
    rw [Program.ensures_ite]
    split
    case isFalse => trivial
    case isTrue =>
      rw [hstill.due] at hsum
      exact Program.ensures_bind.mpr ((ih _ t₂ (by omega)).mono fun _ _ _ => trivial)

end Diskette
