import Diskette.Proofs.Simulated.Steps

/-!
The reset of a simulated controller, whatever faults it has but one that lets no command in. It comes
out of it settled, unless a fault holds it up in the midst of a command.
-/
namespace Diskette

open Simulated
open Diskette.Core (surroundings)

variable {c c' : Controller} {k k' : Core} {m : Simulated} {base : UInt16}

namespace Core

def heldInReset (k : Core) (output : UInt8) : Core :=
  { k with fdc := { k.fdc with
      output, stage := .command, partialCommand := [], results := [], pending := [], nonDma := false } }

/-- What the controller owes for each drive when it comes out of a reset. -/
def owed (k : Core) : List (UInt8 × UInt8) :=
  Drive.all.map fun drive => (drive.index ||| 0xC0, k.fdc.cylinders drive)

def released (k : Core) (output : UInt8) : Core :=
  { k with fdc := { k.fdc with
      output, resets := k.fdc.resets + 1, pending := k.fdc.pending ++ k.owed } }

def withOutput (k : Core) (output : UInt8) : Core :=
  { k with fdc := { k.fdc with output } }

theorem inReset_encode (k : Core) (output : DigitalOutput) :
    (k.withOutput output.encode).fdc.inReset = output.resetAsserted := by
  have hdecode : (k.withOutput output.encode).fdc.inReset =
      (DigitalOutput.decode output.encode).resetAsserted := rfl
  rw [hdecode, DigitalOutput.decode_encode]

theorem core_writeOutput (output : DigitalOutput) :
    (m.writeOutput output.encode).core =
      if output.resetAsserted then m.core.heldInReset output.encode
      else if m.core.fdc.inReset then m.core.released output.encode
      else m.core.withOutput output.encode := by
  have hreset := inReset_encode m.core output
  change ({ m.fdc with output := output.encode } : Fdc).inReset = _ at hreset
  unfold writeOutput
  simp only [hreset]
  cases output.resetAsserted with
  | true => rfl
  | false =>
    simp only [Bool.false_eq_true, ↓reduceIte]
    have hwas : m.core.fdc.inReset = m.fdc.inReset := rfl
    rw [hwas]
    split
    · rw [core_signal]
      rfl
    · rfl

theorem ensures_writeOutput_encode (h : At base k) (output : DigitalOutput) :
    (Platform.output (Port.digitalOutput base) output.encode).Ensures surroundings
      (fun _ k' => k' = if output.resetAsserted then k.heldInReset output.encode
        else if k.fdc.inReset then k.released output.encode else k.withOutput output.encode) k := by
  apply (ensures_writeOutput h _).mono
  rintro _ _ ⟨m, rfl, rfl⟩
  exact core_writeOutput output

end Core

/-- A register is written, and the driver notes it. -/
theorem ensures_writeShadow (h : Linked c k) {output : DigitalOutput}
    (hout : output.resetAsserted = false) {Q : Shadow → Core → Prop}
    (hQ : Q { c.shadow with output } (k.withOutput output.encode)) :
    (c.shadow.writeOutput output).Ensures surroundings Q k := by
  refine Program.ensures_bind.mpr ((Core.ensures_writeOutput_encode h.toAt output).mono ?_)
  rintro _ _ rfl
  rw [hout, h.inReset]
  exact hQ

/-- The controller right after a pulse of the reset line. -/
def Core.restarted (k : Core) (output : UInt8) : Core :=
  { k with fdc := { k.fdc with
      output, stage := .command, partialCommand := [], results := [], pending := k.owed
      nonDma := false, resets := k.fdc.resets + 1 } }

theorem ensures_pulse (h : Core.At c.base k) (hout : c.shadow.output.resetAsserted = false) :
    Operation.Ensures surroundings Operation.pulseReset
      (fun _ c' k' => c' = c ∧ k' = k.restarted c.shadow.output.encode) c k := by
  obtain ⟨⟨base, ⟨motors, gate, resetAsserted, drive⟩, rate⟩⟩ := c
  obtain rfl : resetAsserted = false := hout
  have hat : Core.At base k := h
  simp only [Operation.pulseReset, Operation.ensures_bind, Operation.ensures_shadowed,
    Operation.ensures_lift, Shadow.setReset, Shadow.writeOutput, Program.ensures_bind,
    Program.pure_eq, Program.ensures_done]
  apply (Core.ensures_writeOutput_encode hat ⟨motors, gate, true, drive⟩).mono
  rintro - _ rfl
  rw [if_pos rfl]
  have hdelay : (Platform.delay Operation.resetHold).Only (Core.Incidental
      (k.heldInReset (DigitalOutput.encode ⟨motors, gate, true, drive⟩)).fdc.base) :=
    .perform (by trivial)
  apply (Core.ensures_incidental hdelay).mono
  rintro - _ rfl
  have hheld : Core.At base (k.heldInReset (DigitalOutput.encode ⟨motors, gate, true, drive⟩)) :=
    ⟨hat.present, hat.base_eq, hat.room⟩
  apply (Core.ensures_writeOutput_encode hheld ⟨motors, gate, false, drive⟩).mono
  rintro - _ rfl
  have hreset : (k.heldInReset (DigitalOutput.encode ⟨motors, gate, true, drive⟩)).fdc.inReset =
      true := Core.inReset_encode k ⟨motors, gate, true, drive⟩
  rw [if_neg Bool.false_ne_true, if_pos hreset]
  exact ⟨trivial, rfl⟩

theorem ensures_send_refused (h : Core.At base k) (hstatus : k.status.canWrite = false) (b : UInt8)
    (rest : List UInt8) : (Fifo.send base (b :: rest)).Ensures surroundings
      (fun r k' => r = .error (.writeTimeout 0 (b :: rest).length) ∧ k' = k) k := by
  refine Program.ensures_bind.mpr ((Core.ensures_writable h).mono ?_)
  rintro _ _ ⟨rfl, rfl⟩
  rw [hstatus]
  exact ⟨rfl, rfl⟩

/-- Held up with a result that it does not give. -/
structure Core.Withheld (base : UInt16) (k : Core) : Prop extends Core.At base k where
  outOfReset : k.fdc.inReset = false
  result : k.fdc.stage = .result
  withholds : k.faults.withholdResults = true

theorem Core.core_obey_sense (hm : m.core = k.took [Opcode.senseInterrupt]) :
    (m.obey (.ofBytes [Opcode.senseInterrupt])).core =
      (k.took [Opcode.senseInterrupt]).sensed.answer k.senseAnswer :=
  (hm ▸ Core.core_senseInterrupt : _ = (k.took [Opcode.senseInterrupt]).sensed.answer
    (k.took [Opcode.senseInterrupt]).senseAnswer)

theorem Core.length_senseAnswer (k : Core) : 1 ≤ k.senseAnswer.length ∧ k.senseAnswer.length ≤ 2 := by
  unfold Core.senseAnswer
  split <;> simp

/-- A sense takes what is pending away, unless the answer is withheld. -/
theorem ensures_sense (hidle : Core.Idle base k) (hlimit : k.faults.commandLimit ≠ some 0) :
    (Fifo.transact base [Opcode.senseInterrupt] (.between 1 2)).Ensures surroundings (fun r k' =>
      Core.Same k k' ∧ match r with
        | .ok result => result.toList = k.senseAnswer ∧ Core.Idle base k' ∧
          k'.fdc.pending = k.fdc.pending.tail
        | .error _ => Core.Withheld base k') k := by
  have hopen := (hidle.took [Opcode.senseInterrupt]).same (Core.same_sensed _) rfl
  have hsame := (Core.same_took k [Opcode.senseInterrupt]).trans (Core.same_sensed _)
  have hlength := k.length_senseAnswer
  refine (Core.ensures_transact (n := .between 1 2) hidle hlimit
    (List.cons_ne_nil Opcode.senseInterrupt []) rfl (fun _ => Core.core_obey_sense) hopen rfl hlength.1
    (by exact hlength.2)).mono ?_
  intro r k' htransacted
  cases htransacted with
  | answered result hresult =>
    exact ⟨hsame.trans (Core.same_answer _ []), hresult, hopen.idle, rfl⟩
  | stalled cause limit hstall hlt =>
    obtain rfl : limit = 0 := Nat.lt_one_iff.mp hlt
    exact absurd hstall hlimit
  | withheld cause hgive hne =>
    obtain ⟨b, bs, hbs⟩ := List.exists_cons_of_ne_nil hne
    refine ⟨hsame.trans (Core.same_answer _ _), ⟨(hopen.answer _).toAt, (hopen.answer _).outOfReset, ?_,
      hgive⟩⟩
    rw [hbs]
    rfl

theorem ensures_drain (count : Nat) {entries : List (UInt8 × UInt8)} (hidle : Core.Idle c.base k)
    (hlimit : k.faults.commandLimit ≠ some 0) (hpending : k.fdc.pending = entries)
    (hentries : ∀ e ∈ entries, e.1 ≠ Operation.nothingPending) :
    Operation.Ensures surroundings (Operation.drain count) (fun _ c' k' => c' = c ∧
      Core.Same k k' ∧ (Core.Idle c.base k' ∧ k'.fdc.pending = entries.drop count ∨
        Core.Withheld c.base k')) c k := by
  induction count generalizing k entries with
  | zero => exact ⟨rfl, .refl k, .inl ⟨hidle, hpending⟩⟩
  | succ count ih =>
    simp only [Operation.drain, Operation.ensures_bind, Operation.ensures_get,
      Operation.ensures_lift]
    apply (ensures_sense hidle hlimit).mono
    rintro (cause | result) k₁ ⟨hsame, hsensed⟩
    · exact ⟨rfl, hsame, .inr hsensed⟩
    · obtain ⟨hresult, hidle₁, hpending₁⟩ := hsensed
      have hfirst : result.byte 0 = k.senseAnswer.getD 0 0 := byte_of_toList hresult 0
      rw [Operation.ensures_ite, hfirst]
      cases entries with
      | nil =>
        have hnone : k.senseAnswer.getD 0 0 = Operation.nothingPending := by
          simp [Core.senseAnswer, hpending]
        rw [if_pos hnone]
        exact ⟨rfl, hsame, .inl ⟨hidle₁, by rw [hpending₁, hpending]; rfl⟩⟩
      | cons entry entries =>
        have hst0 : k.senseAnswer.getD 0 0 = entry.1 := by simp [Core.senseAnswer, hpending]
        rw [hst0, if_neg (hentries entry List.mem_cons_self), Operation.ensures_bind,
          Operation.ensures_log]
        have hlog : (Platform.log c.base (.drained entry.1)).Only (Core.Incidental k₁.fdc.base) :=
          .perform (by trivial)
        apply (Core.ensures_incidental hlog).mono
        rintro _ _ rfl
        have hrest := ih hidle₁ (hsame.faults ▸ hlimit) (hpending₁.trans (congrArg List.tail hpending))
          fun e he => hentries e (List.mem_cons_of_mem entry he)
        apply hrest.mono
        rintro _ c' k' ⟨rfl, hsame', hend⟩
        exact ⟨rfl, hsame.trans hsame', hend⟩

/-- A controller that takes no byte. -/
theorem ensures_transact_refused {n : ResultLength} (h : Core.At base k)
    (hstatus : k.status.canWrite = false) (b : UInt8) (rest : List UInt8) :
    (Fifo.transact base (b :: rest) n).Ensures surroundings
      (fun r k' => (∃ cause, r = .error cause) ∧ k' = k) k := by
  refine Program.ensures_run_bind.mpr ((Core.ensures_uninterrupted
    (ensures_send_refused h hstatus b rest)).mono ?_)
  rintro _ _ ⟨rfl, rfl⟩
  exact ⟨⟨_, rfl⟩, rfl⟩

theorem ensures_specify_refused (h : Core.At c.base k) (hstatus : k.status.canWrite = false)
    (path : DataPath) : Attempt.Ensures surroundings (Operation.specify path) (fun _ _ _ => False)
      (fun _ c' k' => c' = c ∧ k' = k) c k := by
  simp only [Operation.specify, Attempt.ensures_bind, Attempt.ensures_get, Attempt.ensures_of]
  apply (ensures_transact_refused h hstatus _ _).mono
  rintro _ _ ⟨⟨cause, rfl⟩, rfl⟩
  exact ⟨trivial, rfl⟩

theorem Core.Withheld.not_canWrite (h : Core.Withheld base k) : k.status.canWrite = false := by
  unfold Core.status Fdc.status
  rw [h.outOfReset, h.result, h.withholds]
  simp only [Bool.false_eq_true, ↓reduceIte]
  decide

/-- What a reset leaves: a settled controller, unless a fault holds it up in the midst of a command. -/
structure Revived (c : Controller) (k : Core) (c' : Controller) (k' : Core) : Prop where
  setting : c'.setting = c.setting
  linked : Linked c' k'
  kept : Kept k k'
  settled : k'.fdc.partialCommand = [] → k'.fdc.stage = .command → Settled c' k'
  harmless : k.faults.Harmless → Settled c' k'

theorem Revived.abides {c₁ : Controller} (h : Revived c k c₁ k') (hc : Abides c₁ c') :
    Revived c k c' k' :=
  ⟨hc.setting.trans h.setting, h.linked.abides hc, h.kept,
    fun hwhole hcommand => (h.settled hwhole hcommand).abides hc,
    fun hf => (h.harmless hf).abides hc⟩

/-- The bytes that tell the path are a whole command, and the controller takes them as meant. -/
structure Tells (path : DataPath) (bytes : List UInt8) : Prop where
  ne_nil : bytes ≠ []
  length_eq : bytes.length = Order.length (bytes.headD 0)
  obeyed : ∀ {k : Core} {m : Simulated}, m.core = k.took bytes →
    (m.obey (.ofBytes bytes)).core = ((k.took bytes).onPath path).answer []

theorem tells_standardSpecify (path : DataPath) (drive : Drive) (recording : RecordingMode) :
    Tells path ((Command.standardSpecify path).bytes drive recording) := by
  have hvalid : (Command.standardSpecify path).validate = .ok () := rfl
  have hlength := Command.length_bytes (Command.standardSpecify path) drive recording
  refine ⟨?_, hlength, fun hm => ?_⟩
  · intro hnil
    rw [hnil] at hlength
    exact absurd hlength (by decide)
  · rw [Command.ofBytes_bytes hvalid drive recording, ← hm]
    exact Core.core_specify path

/-- What is told about the path, and what becomes of it. -/
theorem ensures_specify (h : Settled c k) (hlimit : k.faults.commandLimit ≠ some 0)
    (path : DataPath) : Attempt.Ensures surroundings (Operation.specify path)
      (fun _ c' k' => c' = { c with specified := some path } ∧ Settled c' k' ∧ Kept k k')
      (fun _ c' k' => c' = c ∧ Core.Same k k' ∧ k'.fdc.partialCommand ≠ [] ∧
        ¬ k.faults.Harmless) c k := by
  have htells := tells_standardSpecify path c.drive c.recording
  generalize hsent : (Command.standardSpecify path).bytes c.drive c.recording = bytes at htells
  have hopen : Core.Open c.base ((k.took bytes).onPath path) :=
    ⟨⟨h.present, h.base_eq, h.room⟩, h.inReset, rfl⟩
  simp only [Operation.specify, Attempt.ensures_bind, Attempt.ensures_get, Attempt.ensures_of, hsent]
  refine (Core.ensures_transact (n := .exactly 0) h.idle hlimit htells.ne_nil htells.length_eq
    (fun _ => htells.obeyed) hopen rfl (Nat.le_refl 0) (Nat.le_refl 0)).mono ?_
  intro r k' htransacted
  cases htransacted with
  | answered result hresult =>
    refine ⟨rfl, ⟨⟨⟨h.present, h.base_eq, h.room⟩, h.output_eq, h.outOfReset⟩, rfl, rfl, h.quiet, ?_⟩,
      rfl, rfl, rfl, rfl⟩
    intro told htold
    obtain rfl : path = told := Option.some.inj htold
    rfl
  | stalled cause limit hstall hlt =>
    refine ⟨trivial, Core.same_partway k _, ?_, fun hf => ?_⟩
    · have hlimit' : limit ≠ 0 := by
        rintro rfl
        exact hlimit hstall
      simp [Core.partway, htells.ne_nil, hlimit']
    · exact absurd hf.commandLimit (by simp [hstall])
  | withheld cause hgive hnil => exact absurd rfl hnil

theorem ensures_respecify_simulated (h : Linked c k) (hunknown : c.specified = none)
    (hlimit : k.faults.commandLimit ≠ some 0)
    (hstate : Core.Idle c.base k ∧ k.fdc.pending = [] ∨ Core.Withheld c.base k) :
    Operation.Ensures surroundings Operation.respecify (fun _ c' k' => Revived c k c' k') c k := by
  simp only [Operation.respecify, Operation.ensures_bind, Operation.ensures_get,
    Attempt.ensures_run, Operation.ensures_log, Operation.ensures_pure]
  have hlog : ∀ k' : Core, ∀ cause, (Platform.log c.base (.specifyFailed cause)).Only
      (Core.Incidental k'.fdc.base) := fun _ _ => .perform (by trivial)
  rcases hstate with ⟨hidle, hquiet⟩ | hwithheld
  · have hsettled : Settled c k := ⟨h, hidle.whole, hidle.command, hquiet, by simp [hunknown]⟩
    refine (ensures_specify hsettled hlimit c.path).mono ?_ ?_
    · rintro _ _ k' ⟨rfl, hsettled', hkept⟩
      exact ⟨rfl, hsettled'.toLinked, hkept, fun _ _ => hsettled', fun _ => hsettled'⟩
    · rintro cause _ k' ⟨rfl, hsame, hpartial, hharm⟩
      apply (Core.ensures_incidental (hlog k' cause)).mono
      rintro _ _ rfl
      exact ⟨rfl, h.same rfl hsame, hsame.kept, fun hwhole => absurd hwhole hpartial,
        fun hf => absurd hf hharm⟩
  · have hfails := ensures_specify_refused hwithheld.toAt hwithheld.not_canWrite c.path
    refine hfails.mono (fun _ _ _ hfalse => hfalse.elim) ?_
    rintro cause _ k' ⟨rfl, rfl⟩
    apply (Core.ensures_incidental (hlog k' cause)).mono
    rintro _ _ rfl
    refine ⟨rfl, h, Kept.refl _, fun _ hcommand => ?_, fun hf => ?_⟩
    · exact absurd (hwithheld.result.symm.trans hcommand) (by simp)
    · exact absurd (hf.withholdResults.symm.trans hwithheld.withholds) (by simp)

theorem ensures_awaitRestart (h : Core.At c.base k) :
    Operation.Ensures surroundings Operation.awaitRestart (fun _ c' k' => c' = c ∧ k' = k) c k := by
  simp only [Operation.awaitRestart, Operation.ensures_bind, Operation.ensures_get,
    Operation.ensures_lift]
  apply (Core.ensures_awaitStatus h _ _).mono
  rintro ready k' ⟨rfl, -⟩
  rw [Operation.ensures_ite]
  split
  · exact ⟨rfl, rfl⟩
  · rw [Operation.ensures_log]
    have hlog : (Platform.log c.base .notReadyAfterReset).Only (Core.Incidental k'.fdc.base) :=
      .perform (by trivial)
    exact (Core.ensures_incidental hlog).mono fun _ _ hk => ⟨rfl, hk⟩

/-- Another data rate has been written. -/
def Core.withRate (k : Core) (rate : UInt8) : Core := { k with fdc := { k.fdc with rate } }

theorem ensures_resync_simulated (h : Linked c k) :
    c.shadow.resync.Ensures surroundings (fun _ k' => k' = k.withRate c.shadow.rate.encode) k := by
  refine Program.ensures_bind.mpr ((Core.ensures_writeOutput_encode h.toAt _).mono ?_)
  rintro _ _ rfl
  rw [if_neg (by simp [h.outOfReset]), if_neg (by simp [h.inReset])]
  have hsame : k.withOutput c.shadow.output.encode = k := by
    unfold Core.withOutput
    rw [← h.output_eq]
  rw [hsame]
  exact Core.ensures_writeRate h.toAt _

theorem ensures_acknowledgeLine :
    Operation.Ensures surroundings Operation.acknowledgeLine (fun _ c' k' => c' = c ∧ k' = k) c k := by
  simp only [Operation.acknowledgeLine, Operation.ensures_bind, Operation.ensures_get]
  split
  · rename_i line _
    have hacknowledge : line.acknowledge.Only (Core.Incidental k.fdc.base) := .perform (by trivial)
    rw [Operation.ensures_lift]
    exact (Core.ensures_incidental hacknowledge).mono fun _ _ hk => ⟨rfl, hk⟩
  · exact ⟨rfl, rfl⟩

theorem owed_ne_nothing : ∀ e ∈ k.owed, e.1 ≠ Operation.nothingPending := by
  intro e he
  obtain ⟨drive, -, rfl⟩ := List.mem_map.mp he
  have hst0 : drive.index ||| 0xC0 ≠ Operation.nothingPending := by cases drive <;> decide
  exact hst0

/-- Out of the pulse, with an interrupt owed for each drive. -/
structure Reopened (c : Controller) (k k' : Core) : Prop where
  linked : Linked c k'
  idle : Core.Idle c.base k'
  kept : Kept k k'
  owed : k'.fdc.pending = k.owed

/-- What a reset does after the pulse. -/
abbrev Operation.comeBack : Operation Unit := do
  drain 4
  acknowledgeLine
  modify fun c => { c with expectation := .idle, specified := none }
  respecify
  setPhase .ready

/-- The controller out of the pulse, with its registers written again. -/
def Core.reopened (k : Core) (c : Controller) : Core :=
  (k.restarted c.shadow.output.encode).withRate c.shadow.rate.encode

theorem reopened_reopened (h : Core.At c.base k) (hout : c.shadow.output.resetAsserted = false) :
    Reopened c k (k.reopened c) := by
  have hlinked : Linked c (k.reopened c) := ⟨⟨h.present, h.base_eq, h.room⟩, rfl, hout⟩
  exact ⟨hlinked, hlinked.idle rfl rfl, ⟨rfl, rfl, rfl, rfl⟩, rfl⟩

/-- Whatever the controller is in the midst of, and whatever its output register holds. -/
theorem ensures_reset_of_comeBack {Q : Unit → Controller → Core → Prop} (h : Core.At c.base k)
    (hout : c.shadow.output.resetAsserted = false)
    (hback : Operation.Ensures surroundings Operation.comeBack Q c (k.reopened c)) :
    Operation.Ensures surroundings Operation.reset Q c k := by
  have hlog : (Platform.log c.base .resetting).Only (Core.Incidental k.fdc.base) :=
    .perform (by trivial)
  unfold Operation.reset
  rw [Operation.ensures_bind, Operation.ensures_log]
  apply (Core.ensures_incidental hlog).mono
  rintro _ k rfl
  refine Operation.ensures_bind.mpr ((ensures_pulse h hout).mono ?_)
  rintro _ c k₁ ⟨rfl, rfl⟩
  have hrestarted : Linked c (k.restarted c.shadow.output.encode) :=
    ⟨⟨h.present, h.base_eq, h.room⟩, rfl, hout⟩
  refine Operation.ensures_bind.mpr ((ensures_awaitRestart hrestarted.toAt).mono ?_)
  rintro _ c _ ⟨rfl, rfl⟩
  refine Operation.ensures_bind.mpr (Operation.ensures_bind.mpr (Operation.ensures_get.mpr ?_))
  rw [Operation.ensures_lift]
  apply (Core.ensures_readStatus hrestarted.toAt).mono
  rintro _ _ ⟨rfl, -⟩
  rw [Operation.ensures_bind, Operation.ensures_get, Operation.ensures_bind, Operation.ensures_lift]
  apply (ensures_resync_simulated hrestarted).mono
  rintro _ _ rfl
  exact hback

theorem ensures_reset_simulated (h : Core.At c.base k) (hout : c.shadow.output.resetAsserted = false)
    (hlimit : k.faults.commandLimit ≠ some 0) :
    Operation.Ensures surroundings Operation.reset (fun _ c' k' => Revived c k c' k') c k := by
  have hreopened := reopened_reopened h hout
  refine ensures_reset_of_comeBack h hout ?_
  have hlimit₂ : (k.reopened c).faults.commandLimit ≠ some 0 := hlimit
  have hdrain := ensures_drain 4 hreopened.idle hlimit₂ hreopened.owed owed_ne_nothing
  refine Operation.ensures_bind.mpr (hdrain.mono ?_)
  rintro _ c k₃ ⟨rfl, hsame, hstate⟩
  refine Operation.ensures_bind.mpr (ensures_acknowledgeLine.mono ?_)
  rintro _ c k₃ ⟨rfl, rfl⟩
  rw [Operation.ensures_bind, Operation.ensures_modify]
  have hlinked : Linked { c with expectation := .idle, specified := none } k₃ :=
    hreopened.linked.same rfl hsame
  have hrespecify := ensures_respecify_simulated hlinked rfl (hsame.faults ▸ hlimit₂)
    (hstate.imp (fun hidle => ⟨hidle.1, hidle.2⟩) id)
  refine Operation.ensures_bind.mpr (hrespecify.mono ?_)
  rintro _ c₄ k₄ hrevived
  have hkept : Kept k k₃ := hreopened.kept.trans hsame.kept
  have hend : Revived c k c₄ k₄ := ⟨hrevived.setting, hrevived.linked, hkept.trans hrevived.kept,
    hrevived.settled, fun hf => hrevived.harmless (hkept.faults ▸ hf)⟩
  exact hend.abides ⟨rfl, rfl⟩

/-- A controller that takes no byte gives none of its interrupts back. -/
theorem ensures_reset_refused (h : Core.At c.base k) (hout : c.shadow.output.resetAsserted = false)
    (hlimit : k.faults.commandLimit = some 0) :
    Operation.Ensures surroundings Operation.reset (fun _ c' k' =>
      c'.setting = c.setting ∧ Reopened c' k k') c k := by
  have hreopened := reopened_reopened h hout
  refine ensures_reset_of_comeBack h hout ?_
  generalize k.reopened c = k' at hreopened ⊢
  have hlimit' : k'.faults.commandLimit = some 0 := hreopened.kept.faults ▸ hlimit
  have hat : Core.At c.base k' := hreopened.linked.toAt
  have hstatus : k'.status.canWrite = false := by
    refine Bool.eq_false_iff.mpr fun hwrite => ?_
    apply (Core.canWrite_status hreopened.idle.outOfReset hreopened.idle.command).mp hwrite
    rw [hreopened.idle.whole]
    exact hlimit'
  have hdrain : Operation.Ensures surroundings (Operation.drain 4)
      (fun _ c₁ k₁ => c₁ = c ∧ k₁ = k') c k' := by
    simp only [Operation.drain, Operation.ensures_bind, Operation.ensures_get,
      Operation.ensures_lift]
    apply (ensures_transact_refused hat hstatus _ _).mono
    rintro _ _ ⟨⟨cause, rfl⟩, rfl⟩
    exact ⟨rfl, rfl⟩
  refine Operation.ensures_bind.mpr (hdrain.mono ?_)
  rintro _ c k' ⟨rfl, rfl⟩
  refine Operation.ensures_bind.mpr (ensures_acknowledgeLine.mono ?_)
  rintro _ c k' ⟨rfl, rfl⟩
  rw [Operation.ensures_bind, Operation.ensures_modify, Operation.ensures_bind]
  simp only [Operation.respecify, Operation.ensures_bind, Operation.ensures_get,
    Attempt.ensures_run]
  have hhold : Core.At (Controller.base { c with expectation := .idle, specified := none }) k' := hat
  refine (ensures_specify_refused hhold hstatus _).mono (fun _ _ _ => False.elim) ?_
  rintro cause _ k' ⟨rfl, rfl⟩
  have hlog : (Platform.log c.base (.specifyFailed cause)).Only (Core.Incidental k'.fdc.base) :=
    .perform (by trivial)
  rw [Operation.ensures_log]
  apply (Core.ensures_incidental hlog).mono
  rintro _ _ rfl
  exact ⟨rfl, hreopened.linked.same rfl (.refl _), hreopened.idle, hreopened.kept, hreopened.owed⟩

end Diskette
