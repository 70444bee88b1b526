import Diskette.Proofs.Arming.Restraint
import Diskette.Proofs.Framing
import Diskette.Proofs.Traffic
import Mathlib.Order.Interval.Set.Basic

/-!
The window in which a DMA channel is armed for a transfer. Its command follows in the same window, and whatever comes
after that arms nothing.
-/
namespace Diskette

variable {x c : Controller} {command : Command} {t : Transfer} {bytes : List UInt8} {h lead tail : History Platform}

/-- What a channel and a line are told, and answer, for one transfer, and the talk on the data port that follows. -/
structure Arming where
  channel : UInt8
  line : Line
  direction : Direction
  count : UInt32
  address : UInt32
  wasEnabled : Bool
  ranOut : Bool
  fires : UInt32
  talk : History Platform

namespace Arming

def setUp (w : Arming) : History Platform :=
  [⟨.channel w.channel .mask, ()⟩, ⟨.channel w.channel (.setMode (.oneShot w.direction)), ()⟩,
    ⟨.channel w.channel (.loadCount w.count), ()⟩, ⟨.channel w.channel (.loadAddress w.address), ()⟩,
    ⟨.channel w.channel .unmask, ()⟩, ⟨.channel w.channel .terminalCount, w.ranOut⟩]

def expect (w : Arming) : History Platform :=
  [⟨.memory (.acknowledge w.line.id), ()⟩, ⟨.memory (.fired w.line.id), w.fires⟩]

def inside (w : Arming) : History Platform := w.setUp ++ (w.expect ++ w.talk)

/-- The channel is armed, the counter is read, and the command is sent, with interrupts suppressed all the while. -/
def window (w : Arming) : History Platform :=
  ⟨.suppress, w.wasEnabled⟩ :: w.inside ++ [⟨.resume w.wasEnabled, ()⟩]

/-- The window arms the accepted channel for a transfer, within the bounce buffer. -/
structure Serves (w : Arming) (c : Controller) (command : Command) (t : Transfer) (lead : History Platform) :
    Prop where
  path : c.path = .channel
  channel_eq : c.channel = some w.channel
  line_eq : c.line = some w.line
  run : ∃ span, command.transfer? = some (span, w.direction) ∧
    t.length = span.count.toNat * (128 <<< span.sizeCode.toNat)
  count_eq : w.count.toNat = t.length
  pos : 1 ≤ t.length
  /-- The address is that of the bounce buffer, and what the channel can reach lies in it. -/
  address : ⟨.memory .bounceAddress, w.address⟩ ∈ lead
  within : ∃ capacity : Nat, ⟨.memory .bounceSize, capacity⟩ ∈ lead ∧ t.length ≤ capacity ∧
    Set.Ico w.address.toNat (w.address.toNat + w.count.toNat) ⊆
      Set.Ico w.address.toNat (w.address.toNat + capacity)

/-- The talk in the window sends a command: all of it, unless the next thing is that it has failed. -/
structure Sends (w : Arming) (c : Controller) (command : Command) (bytes : List UInt8) (tail : History Platform) :
    Prop where
  talk : ∀ e ∈ w.talk, Fifo.Sends c.base e.call
  sent : ∃ k, Traffic c.base w.talk [] (bytes.take k) ∧ (k = bytes.length ∨
    k < bytes.length ∧ tail.head? = some ⟨.log c.base (.failed command (.writeTimeout k bytes.length)), ()⟩)

end Arming

/-- The one time that a channel is armed in a history. -/
def ArmedBy (x : Controller) (command : Command) (t : Transfer) (h : History Platform) : Prop :=
  ∃ lead w tail, h = lead ++ Arming.window w ++ tail ∧ (∀ e ∈ lead ++ tail, Unarmed x.channel e.call) ∧
    w.Serves x command t lead ∧ w.Sends x command (command.bytes x.drive x.recording) tail

/-- What may come of a command: nothing is armed, or the channel is for its transfer. -/
def Restrained (x : Controller) (command : Command) (t : Transfer) (h : History Platform) : Prop :=
  (∀ e ∈ h, Unarmed x.channel e.call) ∨ ArmedBy x command t h

/-- The channel is armed, but the command has not been sent to its end. -/
def HalfSent (x : Controller) (command : Command) (t : Transfer) (cause : Failure) (h : History Platform) : Prop :=
  ∃ lead w k, h = lead ++ Arming.window w ∧ (∀ e ∈ lead, Unarmed x.channel e.call) ∧ w.Serves x command t lead ∧
    (∀ e ∈ w.talk, Fifo.Sends x.base e.call) ∧
    Traffic x.base w.talk [] ((command.bytes x.drive x.recording).take k) ∧
    k < (command.bytes x.drive x.recording).length ∧
    cause = .writeTimeout k (command.bytes x.drive x.recording).length

theorem ArmedBy.append {v : History Platform} (h' : ArmedBy x command t h) (hv : ∀ e ∈ v, Unarmed x.channel e.call) :
    ArmedBy x command t (h ++ v) := by
  obtain ⟨lead, w, tail, rfl, hunarmed, hserves, htalk, k, htraffic, hend⟩ := h'
  refine ⟨lead, w, tail ++ v, by simp, ?_, hserves, htalk, k, htraffic, hend.imp_right fun ⟨hk, hhead⟩ => ⟨hk, ?_⟩⟩
  · intro e he
    rw [← List.append_assoc] at he
    rcases List.mem_append.mp he with hold | hnew
    · exact hunarmed e hold
    · exact hv e hnew
  · cases tail with
    | nil => exact absurd hhead nofun
    | cons first rest => exact hhead

theorem Since.restrained (h' : Since x.channel (Restrained x command t) c h) : Restrained x command t h := by
  obtain ⟨-, u, v, rfl, hu | hu, hv⟩ := h'
  · refine .inl fun e he => ?_
    rcases List.mem_append.mp he with hold | hnew
    · exact hu e hold
    · exact hv e hnew
  · exact .inr (hu.append hv)

/-- That the command has failed is the next thing that is told. -/
theorem HalfSent.restrained {cause : Failure} (h' : HalfSent x command t cause h) :
    Restrained x command t (h ++ [⟨.log x.base (.failed command cause), ()⟩]) := by
  obtain ⟨lead, w, k, rfl, hunarmed, hserves, htalk, htraffic, hk, rfl⟩ := h'
  refine .inr ⟨lead, w, _, rfl, ?_, hserves, htalk, k, htraffic, .inr ⟨hk, rfl⟩⟩
  intro e he
  rcases List.mem_append.mp he with hold | hlast
  · exact hunarmed e hold
  · obtain rfl := List.mem_singleton.mp hlast
    trivial

theorem setUp_of_execution (w : Arming) {length : Nat} {u : History Platform} (hcount : w.count = UInt32.ofNat length)
    (hexec : Execution (Operation.setUpChannel (some ⟨w.channel, w.direction, w.address, length⟩)) u ()) :
    ∃ ranOut, u = ({ w with ranOut } : Arming).setUp := by
  obtain ⟨ranOut, rfl⟩ := Operation.execution_setUpChannel hexec
  exact ⟨ranOut, by rw [Arming.setUp, hcount]⟩

theorem expect_of_execution (w : Arming) {expectation : Expectation} {u : History Platform}
    (hline : c.line = some w.line) (hexec : Execution (Operation.expectEnd c true) u expectation) :
    ∃ fires, u = ({ w with fires } : Arming).expect := by
  have hrun : (Operation.expectEnd c true).Ensures recorded
      (fun _ u => ∃ fires, u = ({ w with fires } : Arming).expect) [] := by
    simp only [Operation.expectEnd, hline, Expectation.arm, Line.acknowledge, Line.fired, Platform.memory,
      Program.call_bind, Program.done_bind, Program.ensures_recorded, Program.pure_eq, Program.ensures_done]
    exact fun _ fires => ⟨fires, rfl⟩
  exact hexec.recorded hrun

/-- A command that goes out with a channel to be loaded arms that channel. -/
theorem arming_of_window {line : Line} {channel : UInt8} {direction : Direction} {address : UInt32} {length k : Nat}
    {u : History Platform} {expectation : Expectation} (hline : c.line = some line)
    (h : Operation.CommandWindow c true (some ⟨channel, direction, address, length⟩) expectation bytes k u) :
    ∃ w : Arming, u = w.window ∧ w.channel = channel ∧ w.line = line ∧ w.direction = direction ∧
      w.count = UInt32.ofNat length ∧ w.address = address ∧ (∀ e ∈ w.talk, Fifo.Sends c.base e.call) ∧
      Traffic c.base w.talk [] (bytes.take k) := by
  obtain ⟨wasEnabled, loading, expecting, talk, rfl, hload, hexpect, htalk, htraffic⟩ := h
  let w : Arming := ⟨channel, line, direction, UInt32.ofNat length, address, wasEnabled, false, 0, talk⟩
  obtain ⟨ranOut, rfl⟩ := setUp_of_execution w rfl hload
  obtain ⟨fires, rfl⟩ := expect_of_execution w hline hexpect
  exact ⟨{ w with ranOut, fires }, rfl, rfl, rfl, rfl, rfl, rfl, htalk, htraffic⟩

end Diskette
