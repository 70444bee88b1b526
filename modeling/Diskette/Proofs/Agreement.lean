import Diskette.Proofs.Agreement.Commands
import Diskette.Simulated.Machine

/-!
The driver and the controller agree on the data path. Whatever has happened before, and whatever went wrong of it,
a data command goes out only when the last Specify since the last reset has told the controller the way that the
payload will take.
-/
namespace Diskette

variable {base : UInt16} {histories : List (History Platform)} {controller : Option Controller}

theorem agreeing_run (h : Run base histories controller) :
    let x := (Receiver.listener base).after {} histories.flatten
    (Receiver.listener base).Accepts {} histories.flatten ∧ x.wire.due = 0 ∧
      ∀ c ∈ controller, Receiver.Agreeing base c x := by
  induction h with
  | start => exact ⟨Listener.accepts_nil _ _, rfl, by simp⟩
  | act a _ hexec ih =>
    obtain ⟨haccepts, hdue, hagreeing⟩ := ih
    obtain ⟨hheard, hdue', hagreeing'⟩ := hexec.heard (Receiver.ensures_act a hdue hagreeing)
    simp only [List.flatten_append, List.flatten_singleton, Listener.after_append]
    exact ⟨Listener.accepts_append _ haccepts hheard, hdue', hagreeing'⟩

/-- No payload is left under way between two acts. Whenever a data command begins, a Specify has gone out whole since
the last reset, and the last one that did has its non-DMA bit clear if a channel is set up for the payload, and set if
the payload is to be stepped through the data port. -/
theorem data_path_agreed (h : Run base histories controller) :
    ((Receiver.listener base).after {} histories.flatten).wire.due = 0 ∧
      ∀ before value later, histories.flatten = before ++ ⟨.output (Port.data base) value, ()⟩ :: later →
        let x := (Receiver.listener base).after {} before
        x.Begins value → x.nonDma = some (!x.wire.loaded) := by
  obtain ⟨haccepts, hdue, -⟩ := agreeing_run h
  exact ⟨hdue, fun before value later hsplit => haccepts before _ later hsplit rfl⟩

/-- The controller is told to go without DMA, on behalf of the user. A write on the DMA path tells it otherwise before
it begins. -/
theorem data_path_agreed_write :
    let s := Session.acts Simulated.machine 0x3F0 { machine := {} }
      [.discover (some 6) (some 2), .ask (.execute (.standardSpecify .port)),
        .ask (.executeWith (.write ⟨0, 0, 1, 0, 1⟩) (.write (List.replicate 128 7)))]
    ∃ before later, s.histories.flatten = before ++ ⟨.output (Port.data 0x3F0) 0xC5, ()⟩ :: later ∧
      ((Receiver.listener 0x3F0).after {} before).Begins 0xC5 ∧
      ((Receiver.listener 0x3F0).after {} before).wire.loaded = true ∧
      ((Receiver.listener 0x3F0).after {} before).nonDma = some false := by
  intro s
  have hrun : Run 0x3F0 s.histories s.controller := Session.run_acts _ _ _ .start
  have hopcode : ((s.histories.flatten.dropWhile fun e => e.call != .output (Port.data 0x3F0) 0xC5).head?.map
      fun e => e.call) = some (.output (Port.data 0x3F0) 0xC5) := by decide +kernel
  have hbefore : let before := s.histories.flatten.takeWhile fun e => e.call != .output (Port.data 0x3F0) 0xC5
      ((Receiver.listener 0x3F0).after {} before).wire.due = 0 ∧
        ((Receiver.listener 0x3F0).after {} before).wire.command = [] ∧
        ((Receiver.listener 0x3F0).after {} before).wire.loaded = true := by decide +kernel
  obtain ⟨hdue, hcommand, hloaded⟩ := hbefore
  have hsplit := List.takeWhile_append_dropWhile (l := s.histories.flatten)
    (p := fun e => e.call != .output (Port.data 0x3F0) 0xC5)
  generalize (s.histories.flatten.takeWhile fun e => e.call != .output (Port.data 0x3F0) 0xC5) = before at *
  generalize (s.histories.flatten.dropWhile fun e => e.call != .output (Port.data 0x3F0) 0xC5) = rest at *
  match rest, hopcode with
  | ⟨call, reply⟩ :: later, hopcode =>
    obtain rfl : call = .output (Port.data 0x3F0) 0xC5 := Option.some.inj hopcode
    have hbegins : ((Receiver.listener 0x3F0).after {} before).Begins 0xC5 := ⟨hdue, hcommand, by decide⟩
    have hagreed := (data_path_agreed hrun).2 before 0xC5 later hsplit.symm hbegins
    rw [hloaded] at hagreed
    exact ⟨before, later, hsplit.symm, hbegins, hloaded, hagreed⟩

end Diskette
