import Diskette.Simulated.Machine

/-!
What the hardware of the simulated machine does to its interrupt unit: it raises lines, has handlers run, and
fills the bounce buffer. The handlers and the masks of the other lines are left as they are.
-/
namespace Diskette

namespace InterruptUnit

/-- What goes on in a unit without a call on it. -/
inductive Stirs (u : InterruptUnit) : InterruptUnit → Prop
  | refl : Stirs u u
  | raise {v : InterruptUnit} (irq : UInt8) : Stirs u v → Stirs u (v.raise irq)
  | serve {v : InterruptUnit} (irq : UInt8) : Stirs u v → Stirs u (v.deliverLine irq)
  | fill {v : InterruptUnit} {memory : Memory} : memory.counters = v.memory.counters →
      memory.bounce.size = v.memory.bounce.size → Stirs u v → Stirs u { v with memory }

namespace Stirs

variable {u v w : InterruptUnit}

theorem trans (h : Stirs u v) (h' : Stirs v w) : Stirs u w := by
  induction h' with
  | refl => exact h
  | raise irq _ ih => exact .raise irq ih
  | serve irq _ ih => exact .serve irq ih
  | fill hcounters hsize _ ih => exact .fill hcounters hsize ih

theorem deliver (h : Stirs u v) : Stirs u v.deliver := by
  unfold InterruptUnit.deliver
  induction lines generalizing v with
  | nil => exact h
  | cons irq lines ih => exact ih (.serve irq h)

theorem fire (irq : UInt8) (count : Nat) : Stirs u (u.fire irq count) := by
  induction count generalizing u with
  | zero => exact .refl
  | succ count ih => exact (Stirs.raise irq .refl).deliver.trans ih

/-- What raising and serving a line keeps is kept, if it does not depend on the bounce buffer. -/
theorem invariant {K : InterruptUnit → Prop} (hraise : ∀ v irq, K v → K (v.raise irq))
    (hserve : ∀ v irq, K v → K (v.deliverLine irq))
    (hfill : ∀ v memory, memory.counters = v.memory.counters → memory.bounce.size = v.memory.bounce.size → K v →
      K { v with memory })
    (h : Stirs u v) (hu : K u) : K v := by
  induction h with
  | refl => exact hu
  | raise irq _ ih => exact hraise _ irq ih
  | serve irq _ ih => exact hserve _ irq ih
  | fill hcounters hsize _ ih => exact hfill _ _ hcounters hsize ih

end Stirs

theorem Stirs.write (u : InterruptUnit) (offset : Nat) (bytes : List UInt8) :
    Stirs u { u with memory := u.memory.write offset bytes } :=
  .fill rfl (Memory.size_write ..) .refl

end InterruptUnit

namespace Simulated

open InterruptUnit (Stirs)

variable {m m' : Simulated}

/-- The hardware has gone on by itself: nothing is written, the unit is left to its handlers, and bytes move
through the channel of the controller only if that is open. -/
structure Reacts (m m' : Simulated) : Prop where
  interrupts : m.interrupts.Stirs m'.interrupts
  writes : m'.writes = m.writes
  channels : ∀ n, n ≠ fdcChannel ∨ (m.channels n).masked = true → m'.channels n = m.channels n

theorem Reacts.trans {m'' : Simulated} (h : Reacts m m') (h' : Reacts m' m'') : Reacts m m'' := by
  refine ⟨h.interrupts.trans h'.interrupts, h'.writes.trans h.writes, fun n hn => ?_⟩
  have hsame := h.channels n hn
  rw [← hsame] at hn ⊢
  exact h'.channels n hn

/-- What does not show in the unit or the channels does not matter. -/
theorem Reacts.of_eq (hinterrupts : m'.interrupts = m.interrupts) (hwrites : m'.writes = m.writes)
    (hchannels : m'.channels = m.channels) : Reacts m m' :=
  ⟨hinterrupts ▸ .refl, hwrites, fun _ _ => by rw [hchannels]⟩

theorem reacts_signal (h : Reacts m m') : Reacts m (signal m') := by
  unfold signal
  split
  · exact h
  · exact h.trans ⟨(Stirs.raise _ .refl).deliver, rfl, fun _ _ => rfl⟩

theorem reacts_channelTransfer (write : Bool) (x : Extent) (h : Reacts m m') :
    Reacts m (m'.channelTransfer write x) := by
  have hmove : Reacts m' (m'.moveBytes write x (m'.channels fdcChannel).address
      (m'.channelShare x (m'.channels fdcChannel))) := by
    cases write with
    | true => exact .of_eq rfl rfl rfl
    | false => exact ⟨.write _ _ _, rfl, fun _ _ => rfl⟩
  rw [channelTransfer]
  generalize (if write then Direction.fromMemory else Direction.toMemory) = direction
  dsimp only
  generalize m'.moveBytes write x _ _ = moved at hmove ⊢
  split
  · rename_i hready
    have hopen : (m'.channels fdcChannel).masked = false := by
      simp only [ChannelState.readyFor, Bool.and_eq_true, Bool.not_eq_true'] at hready
      exact hready.2.1
    have hcount : ∀ ch, Reacts m' (moved.setChannel fdcChannel ch) := by
      refine fun ch => ⟨hmove.interrupts, hmove.writes, fun n hn => ?_⟩
      have hother : n ≠ fdcChannel := by
        rcases hn with hother | hmasked
        · exact hother
        · rintro rfl
          simp [hopen] at hmasked
      exact (if_neg hother).trans (hmove.channels n hn)
    exact h.trans (reacts_signal ((hcount _).trans (.of_eq rfl rfl rfl)))
  · exact h.trans (.of_eq rfl rfl rfl)

theorem reacts_obey (order : Order) (h : Reacts m m') : Reacts m (m'.obey order) := by
  cases order with
  | recalibrate | seek | step =>
    dsimp only [obey, arrive]
    exact reacts_signal (h.trans (.of_eq rfl rfl rfl))
  | senseInterrupt =>
    dsimp only [obey]
    split <;> exact h.trans (.of_eq rfl rfl rfl)
  | transfer write x =>
    dsimp only [obey, startTransfer]
    split
    · exact h.trans (.of_eq rfl rfl rfl)
    · exact reacts_channelTransfer write x h
  | _ => exact h.trans (.of_eq rfl rfl rfl)

theorem reacts_acceptByte (value : UInt8) (h : Reacts m m') : Reacts m (m'.acceptByte value) := by
  unfold acceptByte
  split
  · exact h
  split
  · unfold takeCommandByte
    dsimp only
    split
    · exact reacts_obey _ (h.trans (.of_eq rfl rfl rfl))
    · exact h.trans (.of_eq rfl rfl rfl)
  · dsimp only
    split <;> exact h.trans (.of_eq rfl rfl rfl)
  · exact h

theorem reacts_giveByte (h : Reacts m m') : Reacts m m'.giveByte.2 := by
  unfold giveByte
  split
  · exact h
  split
  · split <;> exact h.trans (.of_eq rfl rfl rfl)
  · exact h.trans (.of_eq rfl rfl rfl)
  · exact h

theorem reacts_writeOutput (value : UInt8) (h : Reacts m m') : Reacts m (m'.writeOutput value) := by
  unfold writeOutput
  dsimp only
  split
  · exact h.trans (.of_eq rfl rfl rfl)
  split
  · exact reacts_signal (h.trans (.of_eq rfl rfl rfl))
  · exact h.trans (.of_eq rfl rfl rfl)

theorem reacts_input (m : Simulated) (port : UInt16) : Reacts m (m.input port).2 := by
  unfold input
  dsimp only
  split
  case h_5 => exact reacts_giveByte (.of_eq rfl rfl rfl)
  all_goals exact .of_eq rfl rfl rfl

/-- A write is remembered before the hardware goes on. -/
theorem reacts_output (m : Simulated) (port : UInt16) (value : UInt8) :
    Reacts { m with writes := (port, value) :: m.writes } (m.output port value) := by
  unfold output
  dsimp only
  split
  · exact reacts_writeOutput value (.of_eq rfl rfl rfl)
  · exact reacts_acceptByte value (.of_eq rfl rfl rfl)
  · exact .of_eq rfl rfl rfl
  · exact .of_eq rfl rfl rfl

end Simulated
end Diskette
