import Diskette.Proofs.Surroundings
import Mathlib.Tactic.SplitIfs

/-!
What is known of a command that has been accepted: it is valid, and comes with a buffer for all of its
payload if it has one.
-/
namespace Diskette

namespace Command

/-- A data command carries a run of sectors that is valid. -/
theorem validate_span {command : Command} {span : SectorSpan} {direction : Direction}
    (hdata : command.transfer? = some (span, direction)) (h : command.validate = .ok ()) :
    span.validate = .ok () := by
  cases command <;> simp only [transfer?, reduceCtorEq, Option.some.injEq, Prod.mk.injEq] at hdata
  case read => exact hdata.1 ▸ h
  case write => exact hdata.1 ▸ h

end Command

/-- A transfer that moves the whole run of its command, its own way, with room for all of it. -/
structure Transfer.Fits (t : Transfer) (command : Command) (span : SectorSpan) : Prop where
  valid : command.validate = .ok ()
  data : command.transfer? = some (span, t.direction)
  length_eq : t.length = span.byteLength
  length_le : t.length ≤ t.buffer.bytes.length

theorem Transfer.validate_eq_ok_iff {t : Transfer} {command : Command} {capacity : Nat} :
    t.validate command capacity = .ok () ↔
      (∃ span, t.Fits command span) ∧ t.length ≤ capacity := by
  cases hvalid : command.validate with
  | error cause =>
    simp only [validate, hvalid, bind, Except.bind, reduceCtorEq, false_iff]
    rintro ⟨⟨span, hfits⟩, -⟩
    simp [hfits.valid] at hvalid
  | ok _ =>
    cases hdata : command.transfer? with
    | none =>
      simp only [validate, hvalid, hdata, bind, Except.bind, reduceCtorEq, false_iff]
      rintro ⟨⟨span, hfits⟩, -⟩
      simp [hfits.data] at hdata
    | some run =>
      obtain ⟨span, direction⟩ := run
      simp only [validate, hvalid, hdata, bind, Except.bind]
      constructor
      · intro h
        split_ifs at h with hdirection hlength hshort hlarge
        refine ⟨⟨span, hvalid, ?_, ?_, ?_⟩, ?_⟩
        · rw [hdata, Decidable.not_not.mp hdirection]
        · exact Decidable.not_not.mp hlength
        · exact Nat.not_lt.mp hshort
        · exact Nat.not_lt.mp hlarge
      · rintro ⟨⟨span', -, hdata', hlength, hshort⟩, hlarge⟩
        obtain ⟨rfl, rfl⟩ : span = span' ∧ direction = t.direction := by simpa [hdata] using hdata'
        rw [if_neg (not_not_intro rfl), if_neg (not_not_intro hlength),
          if_neg (Nat.not_lt.mpr hshort), if_neg (Nat.not_lt.mpr hlarge)]

/-- What has come with a command for its payload. -/
def Command.Furnished (command : Command) : Option Transfer → Prop
  | none => command.transfer? = none
  | some t => ∃ span, t.Fits command span

/-- The bytes of an accepted command, and what may come with them. -/
structure Operation.Prepared (drive : Drive) (recording : RecordingMode) (command : Command)
    (t : Option Transfer) (bytes : List UInt8) : Prop where
  bytes_eq : bytes = command.bytes drive recording
  valid : command.validate = .ok ()
  payload : command.Furnished t

/-- What is done once the drive and the controller are ready. -/
abbrev Operation.proceed (command : Command) (bytes : List UInt8) (t : Option Transfer)
    (drive : Drive) : Delivery Report :=
  match command.transfer?, t with
  | some (span, _), some t => transfer bytes span t
  | _, _ =>
    match command.kind with
    | .seek => .attempt (runSeek command bytes drive)
    | _ => .attempt (runImmediate command bytes)

namespace Operation

variable {σ : Type} {E : Surroundings Platform σ} {c : Controller} {s : σ}

/-- To prepare a command takes a look at the size of the bounce buffer at most, and a payload is no longer than
that. -/
theorem ensures_prepare_within {K : σ → Prop} {L : Nat → σ → Prop} {command : Command} {t : Option Transfer}
    (hsize : E.permits s (.memory .bounceSize) ∧
      ∀ n s', E.follows s (.memory .bounceSize) n s' → K s' ∧ L n s') (hs : K s) :
    Operation.Ensures E (prepare command t) (fun r c' s' => c' = c ∧ K s' ∧
      ∀ bytes, r = .ok bytes → Prepared c.drive c.recording command t bytes ∧
        ∀ transfer ∈ t, ∃ n, transfer.length ≤ n ∧ L n s') c s := by
  have haccept : (accept command t).Ensures E (fun r s' => K s' ∧ (r = .ok () → command.Furnished t ∧
      ∀ transfer ∈ t, ∃ n, transfer.length ≤ n ∧ L n s')) s := by
    unfold accept
    split
    · exact ⟨hs, by rintro ⟨⟩⟩
    · exact ⟨hs, by rintro ⟨⟩⟩
    · refine ⟨hsize.1, fun n s' hfollows => ?_⟩
      obtain ⟨hK, hL⟩ := hsize.2 n s' hfollows
      refine ⟨hK, fun hok => ?_⟩
      obtain ⟨hfits, hlength⟩ := Transfer.validate_eq_ok_iff.mp hok
      refine ⟨hfits, ?_⟩
      rintro _ ⟨⟩
      exact ⟨n, hlength, hL⟩
    · exact ⟨hs, fun _ => ⟨‹_›, nofun⟩⟩
  simp only [prepare, Operation.ensures_bind, Operation.ensures_lift]
  apply haccept.mono
  rintro (cause | _) s' ⟨hK, hpayload⟩
  · refine ⟨rfl, hK, ?_⟩
    rintro bytes ⟨⟩
  · refine ⟨rfl, hK, fun bytes hbytes => ?_⟩
    obtain ⟨hvalid, hbytes⟩ := Command.encode_eq_ok_iff.mp hbytes
    exact ⟨⟨hbytes.symm, hvalid, (hpayload rfl).1⟩, (hpayload rfl).2⟩

theorem ensures_prepare {K : σ → Prop} {command : Command} {t : Option Transfer}
    (hsize : E.permits s (.memory .bounceSize) ∧
      ∀ n s', E.follows s (.memory .bounceSize) n s' → K s') (hs : K s) :
    Operation.Ensures E (prepare command t) (fun r c' s' => c' = c ∧ K s' ∧
      ∀ bytes, r = .ok bytes → Prepared c.drive c.recording command t bytes) c s := by
  refine (ensures_prepare_within (L := fun _ _ => True) ⟨hsize.1, fun n s' hfollows => ?_⟩ hs).mono ?_
  · exact ⟨hsize.2 n s' hfollows, trivial⟩
  · rintro r c' s' ⟨hc, hK, hprepared⟩
    exact ⟨hc, hK, fun bytes hbytes => (hprepared bytes hbytes).1⟩

end Operation
end Diskette
