import Diskette.Proofs.Conduct.Requests
import Diskette.Proofs.Reset
import Diskette.Proofs.Wire.Basic

/-!
The registers that cannot be read back, and the shadow of them. Whatever is asked of a controller, and however that
comes out, each register was written last what the shadow says; and the reset line is asserted in resets alone,
which release it again.
-/
namespace Diskette

variable {base port : UInt16} {value : UInt8} {c c' : Controller} {t u : History Platform}
  {e : Exchange Platform}

/-- Calls that write no port. -/
def Unwriting (call : Platform.Call) : Prop := ∀ port value, call ≠ .output port value

/-- What an exchange writes to a port. -/
@[simp] def written (port : UInt16) : Exchange Platform → Option UInt8
  | ⟨.output port' value, _⟩ => if port' = port then some value else none
  | _ => none

/-- The last byte that a port was written, if any was. -/
abbrev lastWritten (port : UInt16) : History Platform → Option UInt8 := latest (written port)

theorem written_eq_some (h : written port e = some value) : e = ⟨.output port value, ()⟩ := by
  obtain ⟨call, reply⟩ := e
  cases call with
  | output port' value' =>
    simp only [written, Option.ite_none_right_eq_some, Option.some.injEq] at h
    obtain ⟨rfl, rfl⟩ := h
    rfl
  | _ => simp [written] at h

theorem lastWritten_eq_none (h : ∀ e ∈ t, ∀ value, e.call ≠ .output port value) : lastWritten port t = none := by
  refine latest_eq_none fun e he => ?_
  cases hwritten : written port e with
  | none => rfl
  | some value => exact absurd (congrArg Exchange.call (written_eq_some hwritten)) (h e he value)

theorem mem_of_lastWritten (h : lastWritten port t = some value) : ⟨.output port value, ()⟩ ∈ t := by
  obtain ⟨e, he, hwritten⟩ := exists_of_latest h
  exact written_eq_some hwritten ▸ he

/-- A write in a run of a reset, which releases the reset line later on. -/
def InReset (base : UInt16) (before : History Platform) (value : UInt8) (later : History Platform) : Prop :=
  ∃ c c' start lead rest remainder, c.base = base ∧ before = start ++ lead ∧ later = rest ++ remainder ∧
    Execution (Operation.reset.run c) (lead ++ ⟨.output (Port.digitalOutput base) value, ()⟩ :: rest) ((), c') ∧
    ∃ released, ⟨.output (Port.digitalOutput base) released, ()⟩ ∈ rest ∧
      (DigitalOutput.decode released).resetAsserted = false

/-- The reset line is asserted in resets alone. -/
def ResetsOnly (base : UInt16) (h : History Platform) : Prop :=
  ∀ before value later, h = before ++ ⟨.output (Port.digitalOutput base) value, ()⟩ :: later →
    (DigitalOutput.decode value).resetAsserted → InReset base before value later

theorem resetsOnly_of_released (h : ∀ e ∈ t, ∀ value, e.call = .output (Port.digitalOutput base) value →
    (DigitalOutput.decode value).resetAsserted = false) : ResetsOnly base t := by
  rintro before value later rfl hasserted
  have hreleased := h ⟨.output (Port.digitalOutput base) value, ()⟩ (by simp) value rfl
  simp [hreleased] at hasserted

theorem ResetsOnly.append (ht : ResetsOnly base t) (hu : ResetsOnly base u) : ResetsOnly base (t ++ u) := by
  intro before value later hsplit hasserted
  rcases split_append hsplit with ⟨rest, rfl, rfl⟩ | ⟨lead, rfl, rfl⟩
  · obtain ⟨c, c', start, lead, rest', remainder, hbase, hbefore, rfl, hrun⟩ := ht before value rest rfl hasserted
    exact ⟨c, c', start, lead, rest', remainder ++ u, hbase, hbefore, by simp, hrun⟩
  · obtain ⟨c, c', start, lead', rest, remainder, hbase, rfl, hlater, hrun⟩ := hu lead value later rfl hasserted
    exact ⟨c, c', t ++ start, lead', rest, remainder, hbase, by simp, hlater, hrun⟩

/-- A reset that ends with the reset line released has released it after each time it asserted it. -/
theorem resetsOnly_of_reset (hexec : Execution (Operation.reset.run c) t ((), c'))
    (hlast : lastWritten (Port.digitalOutput c.base) t = some value)
    (hreleased : (DigitalOutput.decode value).resetAsserted = false) : ResetsOnly c.base t := by
  rintro before value' later rfl hasserted
  refine ⟨c, c', [], before, later, [], rfl, rfl, by simp, hexec, value, ?_, hreleased⟩
  cases hlater : lastWritten (Port.digitalOutput c.base) later with
  | some w =>
    have hw : w = value := by simpa [hlater] using hlast
    exact mem_of_lastWritten (hw ▸ hlater)
  | none =>
    have hsame : value' = value := by simpa [hlater] using hlast
    simp [hsame, hreleased] at hasserted

/-- Both registers were last written what the shadow says, the rate if it was written at all. -/
structure Coherent (base : UInt16) (c : Controller) (h : History Platform) : Prop where
  base_eq : c.base = base
  outOfReset : c.shadow.output.resetAsserted = false
  output : lastWritten (Port.digitalOutput base) h = some c.shadow.output.encode
  rate : ∀ value ∈ lastWritten (Port.configControl base) h, value = c.shadow.rate.encode
  resets : ResetsOnly base h

namespace Coherent

theorem of_shadow (h : Coherent base c t) (hc : c'.shadow = c.shadow) : Coherent base c' t := by
  obtain ⟨hbase, hreset, houtput, hrate, hresets⟩ := h
  have hbase' : c'.base = c.base := congrArg Shadow.base hc
  refine ⟨hbase'.trans hbase, ?_, ?_, ?_, hresets⟩
  · rwa [hc]
  · rwa [hc]
  · rwa [hc]

/-- Calls that write neither register. -/
theorem append (h : Coherent base c t) (hu : ∀ e ∈ u, ∀ value,
    e.call ≠ .output (Port.digitalOutput base) value ∧ e.call ≠ .output (Port.configControl base) value) :
    Coherent base c (t ++ u) := by
  have houtput := lastWritten_eq_none fun e he value => (hu e he value).1
  have hrate := lastWritten_eq_none fun e he value => (hu e he value).2
  refine ⟨h.base_eq, h.outOfReset, ?_, ?_, h.resets.append ?_⟩
  · simpa [houtput] using h.output
  · simpa [hrate] using h.rate
  · exact resetsOnly_of_released fun e he value hcall => absurd hcall (hu e he value).1

theorem follows (h : Coherent base c t) (hcall : Unwriting e.call) :
    Coherent base c (t ++ [e]) := by
  refine h.append fun e' he value => ?_
  obtain rfl := List.mem_singleton.mp he
  exact ⟨hcall _ _, hcall _ _⟩

/-- A write to the output register that leaves the controller out of reset, with the shadow that goes with it. -/
theorem writeOutput {output : DigitalOutput} {reply : Unit} (h : Coherent base c t)
    (hreset : output.resetAsserted = false) :
    Coherent base { c with shadow := { c.shadow with output } }
      (t ++ [⟨.output (Port.digitalOutput c.base) output.encode, reply⟩]) := by
  rw [h.base_eq]
  refine ⟨h.base_eq, hreset, by simp, ?_, h.resets.append (resetsOnly_of_released ?_)⟩
  · simpa [Wire.configControl_ne_digitalOutput.symm] using h.rate
  · intro e he value hcall
    obtain rfl := List.mem_singleton.mp he
    obtain ⟨-, rfl⟩ := Platform.Call.output.inj hcall
    rw [DigitalOutput.decode_encode, hreset]

end Coherent

theorem coherent_writeOutput {f : Shadow → DigitalOutput}
    (hf : ∀ s, s.output.resetAsserted = false → (f s).resetAsserted = false) :
    Operation.Keeps recorded (Coherent base) (Operation.shadowed fun s => s.writeOutput (f s)) := by
  intro c t h
  rw [Operation.ensures_shadowed]
  exact Program.ensures_recorded.mpr fun _ => h.writeOutput (hf c.shadow h.outOfReset)

theorem coherent_setRate (rate : DataRate) : Operation.Keeps recorded (Coherent base) (Operation.setRate rate) := by
  intro c t h
  rw [Operation.setRate, Operation.ensures_shadowed]
  refine Program.ensures_recorded.mpr fun reply => ?_
  change Coherent base _ (t ++ [⟨.output (Port.configControl c.base) rate.encode, reply⟩])
  rw [h.base_eq]
  refine ⟨h.base_eq, h.outOfReset, ?_, by simp, h.resets.append (resetsOnly_of_released ?_)⟩
  · simpa [Wire.configControl_ne_digitalOutput] using h.output
  · intro e he value hcall
    obtain rfl := List.mem_singleton.mp he
    exact absurd (Platform.Call.output.inj hcall).1 Wire.configControl_ne_digitalOutput

/-- The pulse of a reset ends as it began, and both registers are written again. -/
theorem lastWritten_of_reset {s : Shadow} (hcalls : ResetCalls s t) :
    lastWritten (Port.digitalOutput s.base) t = some s.output.encode ∧
      lastWritten (Port.configControl s.base) t = some s.rate.encode := by
  obtain ⟨settle, rest, rfl, haside⟩ := hcalls
  have hrest : ∀ port, port ≠ Port.data s.base → lastWritten port rest = none := by
    intro port hport
    refine lastWritten_eq_none fun e he value hcall => ?_
    have hdata := haside e (List.mem_append_right settle he)
    rw [hcall] at hdata
    exact hport hdata
  simp [hrest _ Wire.digitalOutput_ne_data, hrest _ Wire.configControl_ne_data, rewrite,
    Wire.configControl_ne_digitalOutput]

theorem coherent_reset : Operation.Keeps recorded (Coherent base) Operation.reset := by
  intro c t h
  have hreset := ensures_reset (t := t) h.outOfReset
  have hexecution : Operation.Ensures recorded Operation.reset
      (fun a c' t' => ∃ u, t' = t ++ u ∧ Execution (Operation.reset.run c) u (a, c')) c t :=
    Program.ensures_execution _ t
  refine (hreset.and hexecution).mono ?_
  rintro ⟨⟩ c' t' ⟨⟨hrestarted, -, u, ht', hcalls⟩, v, rfl, hexec⟩
  obtain rfl : v = [⟨.log c.base .resetting, ()⟩] ++ u := by simpa using ht'
  obtain ⟨houtput, hrate⟩ := lastWritten_of_reset hcalls
  have hshadow : c'.shadow = c.shadow := Controller.shadow_of_setting hrestarted.setting
  have hbase : c.shadow.base = base := h.base_eq
  rw [hbase] at houtput hrate
  have hlast : lastWritten (Port.digitalOutput c.base) ([⟨.log c.base .resetting, ()⟩] ++ u) =
      some c.shadow.output.encode := by
    simp [h.base_eq, houtput]
  have hresets := resetsOnly_of_reset hexec hlast (by rw [DigitalOutput.decode_encode, h.outOfReset])
  rw [h.base_eq] at hresets ⊢
  have hcoherent : Coherent base c (t ++ ([⟨.log base .resetting, ()⟩] ++ u)) :=
    ⟨h.base_eq, h.outOfReset, by simp [houtput], by simp [hrate], h.resets.append hresets⟩
  exact hcoherent.of_shadow hshadow

theorem calm_coherent : Calm recorded (Coherent base) := by
  refine calm_of_footing ?_ ?_
  · intro c c' t hc h
    have hshadow : c'.footing.shadow = c.footing.shadow := by rw [hc]
    exact h.of_shadow hshadow
  · intro c t call hcall h
    refine ⟨trivial, ?_⟩
    rintro r _ rfl
    refine h.follows ?_
    rintro port value rfl
    exact hcall

theorem conversing_coherent : Conversing recorded (Coherent base) :=
  { calm_coherent.toPatient with
    data := by
      intro c t b h
      refine ⟨trivial, ?_⟩
      rintro r _ rfl
      refine h.append fun e he value => ?_
      obtain rfl := List.mem_singleton.mp he
      rw [h.base_eq]
      constructor
      · exact fun hcall => Wire.digitalOutput_ne_data (Platform.Call.output.inj hcall).1.symm
      · exact fun hcall => Wire.configControl_ne_data (Platform.Call.output.inj hcall).1.symm
    specified := fun _ h => h.of_shadow rfl }

theorem enduring_coherent : Enduring recorded (Coherent base) :=
  { calm_coherent, conversing_coherent with
    spinUp := fun drive => coherent_writeOutput (f := fun s => s.output.setMotor drive true) fun _ => id
    reset := coherent_reset }

theorem leavable_coherent : Leavable recorded (Coherent base) where
  stance := calm_coherent.stance
  givesUp := by
    intro c t call hcall h
    refine ⟨trivial, ?_⟩
    rintro r _ rfl
    refine h.follows ?_
    rintro port value rfl
    exact hcall
  takePrior h := h.of_shadow rfl
  unhook h := h.of_shadow rfl
  toPort h := h.of_shadow rfl
  writeOutput := coherent_writeOutput

theorem coherent_hookLine (line : Line) : Operation.Keeps recorded (Coherent base) (Operation.hookLine line) := by
  have hlift : ∀ {α : Type} {p : Routine α}, p.Only Unwriting →
      Operation.Keeps recorded (Coherent base) (liftM p : Operation α) := by
    intro α p hp
    refine .lift fun c t h => hp.ensures (fun t call hcall h => ⟨trivial, ?_⟩) h
    rintro r _ rfl
    exact h.follows hcall
  refine .bind (hlift (.perform nofun)) fun _ => ?_
  refine .bind (coherent_writeOutput (f := fun s => { s.output with gate := true }) fun _ => id) fun _ => ?_
  have hbind : (Platform.uninterrupted (Platform.bind line.irq (.counting line))).Only Unwriting :=
    Platform.only_uninterrupted nofun (by intro; nofun) (.perform nofun)
  refine .bind (hlift hbind) fun prior => .bind (.modify fun c t h => h.of_shadow rfl) fun _ => ?_
  refine .bind (hlift (.perform nofun)) fun _ => .bind (hlift (.perform nofun)) fun _ => ?_
  exact .bind (.modify fun c t h => h.of_shadow rfl) fun _ => calm_coherent.log _

theorem coherent_enableDma : Operation.Keeps recorded (Coherent base) Operation.enableDma.run := by
  refine .enableDma fun c t line h _ _ => Program.ensures_recorded.mpr fun stormy => ?_
  have h' : Coherent base c (t ++ [⟨.memory (.degraded line.id), stormy⟩]) := h.follows nofun
  exact ⟨h', fun _ _ => coherent_hookLine line c _ h'⟩

theorem armable_coherent : ∀ t, Armable recorded (Coherent base) t := by
  refine .of_stored (fun _ h => ⟨trivial, ?_⟩) fun h => ⟨trivial, ?_⟩
  · rintro r _ rfl
    exact h.follows nofun
  · rintro r _ rfl
    exact h.follows nofun

theorem obliging_coherent : Obliging recorded (Coherent base) fun _ => Coherent base where
  calm := calm_coherent
  writeOutput _ hf := coherent_writeOutput hf
  setRate := coherent_setRate
  setRecording _ := .modify fun _ _ h => h.of_shadow rfl
  reported _ h := h.of_shadow rfl
  reset := coherent_reset
  enableDma := coherent_enableDma
  disableDma := leavable_coherent.disableDma
  carryOut _ := enduring_coherent.carryOut _ _ _ fun t _ => armable_coherent t
  recover command cause h := enduring_coherent.recover command cause _ _ h

/-- The output register is the first one to be written. -/
theorem coherent_of_output {reply : Unit} {shadow : Shadow} (ht : ∀ e ∈ t, Unwriting e.call)
    (hreset : shadow.output.resetAsserted = false) (hc : c.shadow = shadow) :
    Coherent shadow.base c (t ++ [⟨.output (Port.digitalOutput shadow.base) shadow.output.encode, reply⟩]) := by
  subst hc
  have hnone : ∀ port, lastWritten port t = none :=
    fun port => lastWritten_eq_none fun e he value => ht e he port value
  refine ⟨rfl, hreset, by simp, by simp [hnone, Wire.configControl_ne_digitalOutput.symm],
    resetsOnly_of_released fun e he value hcall => ?_⟩
  rcases List.mem_append.mp he with he | he
  · exact absurd hcall (ht e he _ value)
  · obtain rfl := List.mem_singleton.mp he
    obtain ⟨-, rfl⟩ := Platform.Call.output.inj hcall
    rw [DigitalOutput.decode_encode, hreset]

/-- Whatever else is found out about a controller, its shadow is what has been written. -/
theorem coherent_classify (placement : Placement) (ht : ∀ e ∈ t, Unwriting e.call) :
    (Controller.classify placement).Ensures recorded (fun c t' => Coherent placement.base c t') t := by
  have hlook : ∀ {α : Type} {p : Routine α} {t : History Platform}, p.Only Unwriting →
      (∀ e ∈ t, Unwriting e.call) → p.Ensures recorded (fun _ t' => ∀ e ∈ t', Unwriting e.call) t := by
    intro α p t hp ht
    refine (hp.recorded t).mono ?_
    rintro a _ ⟨u, rfl, hu⟩ e he
    exact (List.mem_append.mp he).elim (ht e) (hu e)
  have hlast : ∀ {α : Type} {p : Routine α} {shadow : Shadow} {t : History Platform}, p.Only Unwriting →
      (∀ x : Controller, x.shadow = shadow → Coherent placement.base x t) →
      p.Ensures recorded (fun _ t' => ∀ x : Controller, x.shadow = shadow → Coherent placement.base x t') t := by
    intro α p shadow t hp hx
    refine hp.ensures (fun t call hcall hx => ⟨trivial, ?_⟩) hx
    rintro r _ rfl x hshadow
    exact (hx x hshadow).follows hcall
  have hinput : ∀ port, (Platform.input port).Only Unwriting := fun _ => .perform nofun
  have hopen : ∀ irq, (Controller.openLine irq).Only Unwriting := by
    intro irq
    cases irq with
    | none => exact .done
    | some irq => exact .bind (.perform nofun) fun _ => .done
  refine Program.ensures_bind.mpr ((hlook (hinput _) ht).mono fun a t₁ h₁ => ?_)
  refine Program.ensures_bind.mpr ((hlook (hinput _) h₁).mono fun b t₂ h₂ => ?_)
  refine Program.ensures_bind.mpr ((hlook (hinput _) h₂).mono fun input t₃ h₃ => ?_)
  refine Program.ensures_bind.mpr (Program.ensures_bind.mpr (Program.ensures_recorded.mpr fun reply => ?_))
  rw [Program.ensures_done, Program.pure_eq, Program.ensures_done]
  have hstatus : (Fifo.readStatus placement.base).Only Unwriting := .bind (hinput _) fun _ => .done
  let shadow : Shadow := ⟨placement.base, DigitalOutput.firmwareDefault
    ((placement.irq.filter Placement.usableIrq).isSome && (placement.channel.filter Placement.usableChannel).isSome),
    .kbps500⟩
  have hwritten : ∀ x : Controller, x.shadow = shadow → Coherent placement.base x
      (t₃ ++ [⟨.output (Port.digitalOutput shadow.base) shadow.output.encode, reply⟩]) :=
    fun x => coherent_of_output h₃ rfl
  refine Program.ensures_bind.mpr ((hlast hstatus hwritten).mono fun _ t₄ h₄ => ?_)
  refine Program.ensures_bind.mpr ((hlast (hinput _) h₄).mono fun readBack t₅ h₅ => ?_)
  exact Program.ensures_bind.mpr ((hlast (hopen _) h₅).mono fun line t₆ h₆ => h₆ _ rfl)

theorem coherent_probe (placement : Placement) :
    (Controller.probe placement).Ensures recorded (fun found t' => ∀ c ∈ found, Coherent placement.base c t') [] := by
  refine Program.ensures_bind.mpr (Program.ensures_recorded.mpr fun status => ?_)
  rw [Program.ensures_done, Program.ensures_ite]
  split
  · exact Program.ensures_bind.mpr (Program.ensures_recorded.mpr fun _ => by simp)
  · refine Program.ensures_bind.mpr ((coherent_classify placement ?_).mono fun c t' hc => ?_)
    · intro e he
      obtain rfl := List.mem_singleton.mp he
      exact nofun
    · rintro _ ⟨⟩
      exact hc

theorem coherent_find (placement : Placement) (opening : Opening) :
    (opening.find placement).Ensures recorded (fun found t' => ∀ c ∈ found, Coherent placement.base c t') [] := by
  cases opening with
  | probe => exact coherent_probe placement
  | discover =>
    refine Program.ensures_bind.mpr ((coherent_probe placement).mono ?_)
    rintro (_ | c) t₁ h₁
    · exact fun _ => nofun
    · refine Program.ensures_bind.mpr (Program.Ensures.mono
        (obliging_coherent.toServiceable.bringUp c t₁ (h₁ c rfl)) ?_)
      rintro ⟨_, c'⟩ t₂ h₂ _ ⟨⟩
      exact h₂

/-- From the time that a controller was found, its registers hold what its shadow says. -/
theorem Run.coherent {histories : List (History Platform)} {controller : Option Controller}
    (h : Run base histories controller) :
    ∀ c ∈ controller, ∃ old t, histories.flatten = old ++ t ∧ Coherent base c t := by
  induction h with
  | start => simp
  | @act histories controller _ h a _ hexec ih =>
    simp only [List.flatten_append, List.flatten_singleton]
    cases a with
    | probe irq channel =>
      exact fun c hc => ⟨_, h, rfl, hexec.recorded (coherent_find ⟨base, irq, channel⟩ .probe) c hc⟩
    | discover irq channel =>
      exact fun c hc => ⟨_, h, rfl, hexec.recorded (coherent_find ⟨base, irq, channel⟩ .discover) c hc⟩
    | ask request =>
      cases controller with
      | none =>
        obtain ⟨-, rfl⟩ := hexec.of_done
        simp
      | some c =>
        obtain ⟨old, t, hold, hcoherent⟩ := ih c rfl
        obtain ⟨t₁, t₂, ⟨⟨⟩, c'⟩, rfl, hperform, hend⟩ := hexec.of_bind
        obtain ⟨rfl, rfl⟩ := hend.of_done
        rintro _ ⟨⟩
        refine ⟨old, t ++ t₁, by simp [hold], ?_⟩
        exact hperform.recorded_after (obliging_coherent.request request c t hcoherent)
    | release =>
      cases controller with
      | none =>
        obtain ⟨-, rfl⟩ := hexec.of_done
        simp
      | some c =>
        obtain ⟨t₁, t₂, ⟨⟨⟩, c'⟩, rfl, -, hend⟩ := hexec.of_bind
        obtain ⟨-, rfl⟩ := hend.of_done
        simp

end Diskette
