import Diskette.Simulated.Machine

/-!
What a simulated machine keeps through every call: where its controller answers, whether it takes the bytes
of a command, and, unless it is written to, what stands in its output register.
-/
namespace Diskette.Simulated

variable {α : Type} {m : Simulated}

structure Fixture where
  present : Bool
  base : UInt16
  commandLimit : Option Nat
  output : UInt8

def fixture (m : Simulated) : Fixture := ⟨m.fdc.present, m.fdc.base, m.faults.commandLimit, m.fdc.output⟩

theorem fixture_signal : (signal m).fixture = m.fixture := by
  unfold signal
  split <;> rfl

theorem fixture_arrive (drive : Drive) (head cylinder : UInt8) :
    (m.arrive drive head cylinder).fixture = m.fixture := by
  dsimp only [arrive]
  rw [fixture_signal]
  rfl

theorem fixture_moveBytes (write : Bool) (x : Extent) (address : UInt32) (count : Nat) :
    (m.moveBytes write x address count).fixture = m.fixture := by
  cases write <;> rfl

theorem fixture_endTransfer (x : Extent) (st0 st1 st2 : UInt8) :
    (m.endTransfer x st0 st1 st2).fixture = m.fixture := rfl

theorem fixture_channelTransfer (write : Bool) (x : Extent) :
    (m.channelTransfer write x).fixture = m.fixture := by
  dsimp only [channelTransfer]
  generalize (if write then Direction.fromMemory else .toMemory) = direction
  split
  · rw [fixture_signal, fixture_endTransfer]
    exact fixture_moveBytes write x _ _
  · rfl

theorem fixture_startTransfer (write : Bool) (x : Extent) :
    (m.startTransfer write x).fixture = m.fixture := by
  unfold startTransfer
  split
  · rfl
  · exact fixture_channelTransfer write x

theorem fixture_obey (order : Order) : (m.obey order).fixture = m.fixture := by
  cases order with
  | recalibrate drive => exact fixture_arrive drive _ _
  | seek drive head cylinder => exact fixture_arrive drive head cylinder
  | step drive outward cylinders => exact fixture_arrive drive _ _
  | transfer write x => exact fixture_startTransfer write x
  | senseInterrupt =>
    simp only [obey]
    split <;> rfl
  | _ => rfl

theorem fixture_acceptByte (value : UInt8) : (m.acceptByte value).fixture = m.fixture := by
  unfold acceptByte
  split
  · rfl
  split
  · dsimp only [takeCommandByte]
    split
    · rw [fixture_obey]
      rfl
    · rfl
  · dsimp only
    split <;> rfl
  · rfl

theorem fixture_giveByte : m.giveByte.2.fixture = m.fixture := by
  unfold giveByte
  split
  · rfl
  split
  · split <;> rfl
  · rfl
  · rfl

theorem fixture_writeOutput (value : UInt8) :
    (m.writeOutput value).fixture = { m.fixture with output := value } := by
  dsimp only [writeOutput]
  split
  · rfl
  split
  · rw [fixture_signal]
    rfl
  · rfl

theorem fixture_input (port : UInt16) : (m.input port).2.fixture = m.fixture := by
  dsimp only [input]
  split
  case h_5 => exact fixture_giveByte
  all_goals rfl

/-- What a byte written to a port makes of the output register. -/
theorem fixture_output (port : UInt16) (value : UInt8) : (m.output port value).fixture =
    if m.window port = some 2 then { m.fixture with output := value } else m.fixture := by
  have hwindow : ({ m.countAccess with writes := (port, value) :: m.writes } : Simulated).window port =
      m.window port := rfl
  dsimp only [output]
  rw [hwindow]
  split
  · rename_i htwo
    rw [if_pos htwo]
    exact fixture_writeOutput value
  · rename_i hfive
    rw [if_neg (by simp [hfive])]
    exact fixture_acceptByte value
  · rename_i hseven
    rw [if_neg (by simp [hseven])]
    rfl
  · rename_i htwo _ _
    rw [if_neg htwo]
    rfl

/-- A call that writes no port. -/
theorem fixture_step {c : Platform.Call} (h : ∀ port value, c ≠ .output port value) :
    (m.step c).2.fixture = m.fixture := by
  cases c with
  | input port => exact fixture_input port
  | output port value => exact absurd rfl (h port value)
  | resume wasEnabled => cases wasEnabled <;> rfl
  | _ => rfl

theorem fixture_run (p : Routine α) :
    ∃ output, (p.run Simulated.machine m).2.fixture = { m.fixture with output } := by
  have hstep : ∀ (c : Platform.Call) (m : Simulated), ∃ output, (m.step c).2.fixture = { m.fixture with output } := by
    intro c m
    cases c with
    | output port value =>
      have houtput := m.fixture_output port value
      split at houtput
      · exact ⟨value, houtput⟩
      · exact ⟨m.fixture.output, houtput⟩
    | _ => exact ⟨m.fixture.output, fixture_step nofun⟩
  induction p generalizing m with
  | done a => exact ⟨m.fixture.output, rfl⟩
  | call c next ih =>
    obtain ⟨output, hcall⟩ := hstep c m
    obtain ⟨output', hrest⟩ := ih (m.step c).1 (m := (m.step c).2)
    exact ⟨output', hrest.trans (by rw [hcall])⟩

end Diskette.Simulated
