import Diskette.Proofs.Conduct.Discovery
import Diskette.Proofs.Simulated.Discovery
import Diskette.Proofs.Simulated.Station
import Diskette.Proofs.Storm.Commands
import Diskette.Proofs.Storm.Machine
import Diskette.Proofs.Success.Signs

/-!
An interrupt storm degrades a line for good. From then on commands end by polling, the line stays masked, and
the DMA path is not taken again; the first report that comes of it says so, and no other does. Interrupts may
come in between two requests, and with any call that is made in the midst of one.
-/
namespace Diskette

variable {line : Option Line} {c : Controller} {x y : Exposure} {stage : Stage Exposure}
  {stages : List (Stage Exposure)}

namespace Exposure

/-- Handlers count on lines that there are. -/
def Sound (x : Exposure) : Prop := ∀ id, x.handed id → id < x.memory.counters.size

/-- On a machine that has just been switched on nothing counts. -/
theorem sound_fresh : ({} : Simulated).interrupts.exposure.Sound := by
  rintro id ⟨irq, line, ⟨⟩, -⟩

/-- Surroundings that stand any call. -/
abbrev exposed : Surroundings Platform Exposure := sparing none False

theorem Stirred.size (h : Stirred x y) : y.memory.counters.size = x.memory.counters.size := by
  obtain ⟨ids, -, hcounters⟩ := h.fires
  rw [hcounters]
  clear hcounters
  generalize x.memory.counters = counters
  induction ids generalizing counters with
  | nil => rfl
  | cons id ids ih => simp [ih]

theorem Stirred.sound (h : Stirred x y) (hx : x.Sound) : y.Sound := by
  intro id hid
  rw [h.size]
  exact hx id (h.handed id hid)

theorem sparing_calm (line : Option Line) : sparing line False = exposed := by
  have hspares : ∀ line call, Spares line False call = True :=
    fun _ _ => propext ⟨fun _ => trivial, fun _ hs => hs.elim⟩
  unfold exposed sparing surroundings
  simp only [hspares]

/-- A new line is in order, and nobody counts on it. -/
theorem ensures_openLine (hx : x.Sound) (irq : Option UInt8) : (Controller.openLine irq).Ensures exposed
    (fun line y => ∀ l ∈ line, ¬(y.handed l.id ∨ y.degraded l.id)) x := by
  cases irq with
  | none => exact nofun
  | some irq =>
    refine Program.ensures_bind.mpr (ensures_memory (fun hs => hs.elim) fun y hstirred => ?_)
    have hunhanded : ¬x.handed x.memory.counters.size := fun hhanded => Nat.lt_irrefl _ (hx _ hhanded)
    rintro l ⟨⟩ (hhanded | hdegraded)
    · exact hunhanded (hstirred.handed _ hhanded)
    · refine (hstirred.rises hdegraded).elim (fun hnew => ?_) hunhanded
      simp [degraded, Memory.step, Memory.counter] at hnew

/-- To look for a controller is no risk to the handlers. -/
theorem findable_exposed (placement : Placement) : Controller.Findable exposed placement Sound
    fun line y => ∀ l ∈ line, ¬(y.handed l.id ∨ y.degraded l.id) where
  finds := by
    refine fun {s call} hcall hs => ⟨False.elim, fun r y hy => ?_⟩
    have hstirred : Stirred s y := by
      cases call with
      | input | output | log => exact hy.2
      | _ => exact hcall.elim
    exact hstirred.sound hs
  opens hs := ensures_openLine hs _

/-- A new controller on a new line has no notice to give. -/
theorem attached_new {placement : Placement} (hc : c.New placement)
    (hline : ∀ l ∈ c.line, ¬(x.handed l.id ∨ x.degraded l.id)) :
    Attached c.line False c x ∧ c.stormReported = false :=
  ⟨⟨rfl, by simp [hc.hooked, hc.path], by simp [hc.path], fun _ => hc.prior,
    fun l hl hmay => absurd hmay (hline l hl), False.elim⟩, hc.quiet⟩

theorem attached_bringUp : Operation.Keeps exposed
    (fun c y => Attached line False c y ∧ c.stormReported = false) Controller.bringUp := by
  rw [← sparing_calm line]
  rintro c x ⟨h, hquiet⟩
  have hwatching : Operation.Ensures recorded Controller.bringUp
      (fun _ c' _ => c'.line = line ∧ c'.stormReported = false) c [] := watching_bringUp c [] ⟨h.line_eq, hquiet⟩
  refine (Operation.Ensures.yields (serviceable_attached.bringUp c x h) hwatching).mono ?_
  rintro _ c' y ⟨⟨-, hquiet'⟩, h'⟩
  exact ⟨h', hquiet'⟩

theorem attached_find (opening : Opening) (placement : Placement) (hx : x.Sound) :
    (opening.find placement).Ensures exposed
      (fun found y => ∀ c ∈ found, Attached c.line False c y ∧ c.stormReported = false) x := by
  refine (findable_exposed placement).find (fun c y hc hline => attached_new hc hline) ?_ opening hx
  rintro c x h
  refine (attached_bringUp c x h).mono ?_
  rintro _ c' y ⟨h', hquiet⟩
  exact ⟨h'.line_eq ▸ h', hquiet⟩

/-- What a stage does to its controller, whether its line was degraded at its start or not. -/
theorem runs_attached (hruns : stage.Runs follows) (h : Attached line False stage.before.1 stage.before.2) :
    (∀ moment ∈ stage.moments, Spares line (stage.before.2.stormy line) moment.exchange.call) ∧
      Attached line False stage.after.1 stage.after.2 ∧
      (stage.before.2.stormy line → Responded stage.answer stage.after.1) := by
  have hstart : Attached line (stage.before.2.stormy line) stage.before.1 stage.before.2 :=
    ⟨h.line_eq, h.hooked, h.lined, h.cleared, h.gated, id⟩
  obtain ⟨hspares, hend, hresponded⟩ := Program.Ensures.passage (ensures_respond stage.request hstart) hruns
  exact ⟨hspares, ⟨hend.line_eq, hend.hooked, hend.lined, hend.cleared, hend.gated, False.elim⟩, hresponded⟩

variable {α : Type} {p : Routine α} {ms before later : List (Moment Platform Exposure)} {m : Moment Platform Exposure}
  {a : α} {l : Line} {id : Nat}

/-- A flag that is set stays set for the rest of a run. -/
theorem degraded_of_start (h : Passage follows p x ms a y) (hx : x.degraded id) :
    (∀ m ∈ ms, m.state.degraded id) ∧ y.degraded id := by
  obtain ⟨-, hlater⟩ := h.pairwise (R := fun x y => x.degraded id → y.degraded id) (fun _ hx => hx)
    (fun _ _ _ hxy hyz hx => hyz (hxy hx)) fun _ _ _ _ => follows_stays
  refine ⟨fun m hm => hlater _ (List.mem_append_left _ (List.mem_map_of_mem hm)) hx, ?_⟩
  exact hlater y (List.mem_append_right _ (List.mem_singleton_self y)) hx

theorem degraded_of_moment (h : Passage follows p x (before ++ m :: later) a y) (hm : m.state.degraded id) :
    (∀ m' ∈ later, m'.state.degraded id) ∧ y.degraded id := by
  obtain ⟨q, s, hfollows, hrest⟩ := h.moment
  exact degraded_of_start hrest (follows_stays hfollows hm)

theorem degraded_pairwise (h : Passage follows p x ms a y) (id : Nat) :
    ms.Pairwise fun m m' => m.state.degraded id → m'.state.degraded id := by
  obtain ⟨hpairwise, -⟩ := h.pairwise (R := fun x y => x.degraded id → y.degraded id) (fun _ hx => hx)
    (fun _ _ _ hxy hyz hx => hyz (hxy hx)) fun _ _ _ _ => follows_stays
  exact List.pairwise_map.mp (List.pairwise_append.mp hpairwise).1

/-- A look at the flag is answered by what it is. -/
theorem reply_of_look {stormy : Bool} (h : Passage follows p x ms a y) (hm : m ∈ ms)
    (hlook : m.exchange = ⟨.memory (.degraded id), stormy⟩) : m.state.degraded id = stormy := by
  obtain ⟨before, later, rfl⟩ := List.append_of_mem hm
  obtain ⟨state, exchange⟩ := m
  obtain rfl : exchange = ⟨.memory (.degraded id), stormy⟩ := hlook
  obtain ⟨q, s, ⟨hanswer, -⟩, -⟩ := h.moment
  exact hanswer.symm

end Exposure

/-- What a look at the flag of a line has found. -/
def flagRead (l : Line) : Exchange Platform → Option Bool
  | ⟨.memory (.degraded id), stormy⟩ => if id = l.id then some stormy else none
  | _ => none

theorem eq_of_flagRead {l : Line} {e : Exchange Platform} {stormy : Bool} (h : flagRead l e = some stormy) :
    e = ⟨.memory (.degraded l.id), stormy⟩ := by
  unfold flagRead at h
  split at h
  · split at h
    · rename_i hid
      obtain rfl := Option.some.inj h
      rw [hid]
    · exact absurd h nofun
  · exact absurd h nofun

/-- The last look at the line in a stage has found it degraded. -/
def Stage.Found {σ : Type} (line : Option Line) (stage : Stage σ) : Prop :=
  ∃ l ∈ line, latest (flagRead l) stage.history = some true

/-- A command has gone well, and its last look at the line has found it degraded. -/
def Stage.Alarms (line : Option Line) (stage : Stage Exposure) : Prop :=
  stage.answer.report?.isSome ∧ stage.Found line

namespace Exposure

/-- A call of a stage, and the run that it is a part of. -/
theorem exists_moment_of_history (hruns : stage.Runs follows) {u v : History Platform} {e : Exchange Platform}
    (h : stage.history = u ++ e :: v) : ∃ before m later, m.exchange = e ∧ later.map (·.exchange) = v ∧
      Passage follows (stage.request.respond.run stage.before.1) stage.before.2 (before ++ m :: later)
        (stage.answer, stage.after.1) stage.after.2 := by
  have hpassage : Passage follows _ _ stage.moments _ _ := hruns
  obtain ⟨before, m, later, hmoments, -, hm, hlater⟩ := exists_moment_of_map h
  rw [hmoments] at hpassage
  exact ⟨before, m, later, hm, hlater, hpassage⟩

/-- What is found is so from then on. -/
theorem stormy_of_found (hruns : stage.Runs follows) (hfound : stage.Found line) : stage.after.2.stormy line := by
  obtain ⟨l, rfl, hlatest⟩ := hfound
  obtain ⟨e, he, hread⟩ := exists_of_latest hlatest
  obtain ⟨u, v, hsplit⟩ := List.append_of_mem he
  obtain ⟨before, m, later, hm, -, hpassage⟩ := exists_moment_of_history hruns hsplit
  exact (degraded_of_moment hpassage (reply_of_look hpassage (by simp) (hm.trans (eq_of_flagRead hread)))).2

/-- A look that decides is as good as the last one. -/
theorem found_iff {stormy : Bool} (hruns : stage.Runs follows) (hdecides : Decides line stormy stage.history) :
    stage.Found line ↔ stormy = true := by
  cases line with
  | none =>
    obtain rfl : stormy = false := hdecides
    exact iff_of_false (by rintro ⟨l, ⟨⟩, -⟩) Bool.false_ne_true
  | some l =>
    obtain ⟨u, v, hsplit, hlast⟩ := hdecides
    have hread : flagRead l ⟨.memory (.degraded l.id), stormy⟩ = some stormy := if_pos rfl
    have hfound : stage.Found (some l) ↔ latest (flagRead l) stage.history = some true := by simp [Stage.Found]
    rw [hfound, hsplit, latest_append, latest_cons, hread]
    cases stormy with
    | false => simp [hlast rfl]
    | true =>
      -- Later looks, if there are any, find what this one has found.
      obtain ⟨before, m, later, hm, rfl, hpassage⟩ := exists_moment_of_history hruns hsplit
      obtain ⟨hstays, -⟩ := degraded_of_moment hpassage (reply_of_look hpassage (by simp) hm)
      cases hlater : latest (flagRead l) (later.map (·.exchange)) with
      | none => simp
      | some stormy' =>
        obtain ⟨e, he, hread'⟩ := exists_of_latest hlater
        obtain ⟨m', hm', rfl⟩ := List.mem_map.mp he
        have hreply := reply_of_look hpassage (by simp [hm']) (eq_of_flagRead hread')
        simp [← hreply, hstays m' hm']

end Exposure

open Exposure in
/-- What the degradation of a line comes to, for all that is asked of its controller. -/
structure Degradation (line : Option Line) (stages : List (Stage Exposure)) : Prop where
  /-- Commands end by polling. -/
  polled : ∀ stage ∈ stages, stage.before.2.stormy line → ∀ report, stage.answer.report? = some report →
    report.endedBy = .polling
  /-- The line stays masked. -/
  masked : ∀ stage ∈ stages, stage.before.2.stormy line → ∀ l ∈ line, ∀ moment ∈ stage.moments,
    moment.exchange.call ≠ .unmaskLine l.irq
  /-- The DMA path is refused, at no more than a look at the line. -/
  refused : ∀ stage ∈ stages, stage.request = .enableDma → stage.before.1.channel.isSome →
    ∀ l ∈ line, stage.before.2.degraded l.id → stage.answer = .enabled (.error (.interruptStorm l.irq)) ∧
      stage.after.1 = stage.before.1 ∧ Stirred stage.before.2 stage.after.2 ∧
      ∀ moment ∈ stage.moments, moment.exchange.call = .memory (.degraded l.id)
  /-- Any command that is accepted leaves the DMA path, the handler and the gate. -/
  left : ∀ stage ∈ stages, stage.before.2.stormy line → stage.answer.Accepted → stage.after.1.OffLine
  /-- A command that goes well finds the line degraded if it was so before, and only if it is so after it. -/
  found : ∀ stage ∈ stages, stage.answer.report?.isSome →
    (stage.before.2.stormy line → stage.Found line) ∧ (stage.Found line → stage.after.2.stormy line)
  /-- The first command to go well that finds the line degraded has the notice, and no other one. -/
  noticed : ∀ earlier stage later, stages = earlier ++ stage :: later →
    ∀ report, stage.answer.report? = some report → ∀ notice, report.notice = some notice ↔
      stage.Found line ∧ (∀ before ∈ earlier, ¬before.Alarms line) ∧ ∃ l ∈ line, notice = .interruptStorm l.irq

namespace Degradation

open Exposure

theorem ensures_refused {l : Line} (hchannel : c.channel.isSome) (hline : c.line = some l)
    (hdegraded : x.degraded l.id) :
    Operation.Ensures (surroundings fun call => call = .memory (.degraded l.id)) Operation.enableDma.run
      (fun r c' y => r = .error (.interruptStorm l.irq) ∧ c' = c ∧ Stirred x y) c x := by
  have hnone : c.channel.isNone = false := by
    rw [← Option.not_isSome, hchannel]
    rfl
  rw [Attempt.ensures_run]
  simp only [Operation.enableDma, Attempt.ensures_bind, Attempt.ensures_get, Attempt.ensures_ite, hnone,
    Bool.false_eq_true, if_false, hline, Attempt.ensures_lift]
  refine ensures_memory rfl fun y hstirred => ?_
  have hstormy : (x.memory.step (.degraded l.id)).1 = true := hdegraded
  rw [hstormy]
  exact ⟨rfl, rfl, hstirred⟩

theorem refused_of_runs (hruns : stage.Runs follows) (hrequest : stage.request = .enableDma)
    (hchannel : stage.before.1.channel.isSome) {l : Line} (hline : stage.before.1.line = some l)
    (hdegraded : stage.before.2.degraded l.id) :
    stage.answer = .enabled (.error (.interruptStorm l.irq)) ∧
      stage.after.1 = stage.before.1 ∧ Stirred stage.before.2 stage.after.2 ∧
      ∀ moment ∈ stage.moments, moment.exchange.call = .memory (.degraded l.id) := by
  have hrefused : Operation.Ensures (surroundings fun call => call = .memory (.degraded l.id))
      (Request.respond .enableDma) (fun answer c' y => answer = .enabled (.error (.interruptStorm l.irq)) ∧
        c' = stage.before.1 ∧ Stirred stage.before.2 y) stage.before.1 stage.before.2 := by
    refine Operation.ensures_bind.mpr ((ensures_refused hchannel hline hdegraded).mono ?_)
    rintro r c' y ⟨rfl, hrest⟩
    exact ⟨rfl, hrest⟩
  have hrun : Passage follows ((Request.respond .enableDma).run stage.before.1) stage.before.2 stage.moments
      (stage.answer, stage.after.1) stage.after.2 := hrequest ▸ hruns
  obtain ⟨hmoments, hanswer, hcontroller, hstirred⟩ := Program.Ensures.passage hrefused hrun
  exact ⟨hanswer, hcontroller, hstirred, hmoments⟩

/-- The notice is given just when it is due. -/
theorem due_iff {line : Option Line} {stormy reported : Bool} (h : line = none → stormy = false) (notice : Failure) :
    stormNotice line stormy reported = some notice ↔
      stormy = true ∧ reported = false ∧ ∃ l ∈ line, notice = .interruptStorm l.irq := by
  cases line with
  | none => simp [stormNotice]
  | some l => cases reported <;> cases stormy <;> simp [stormNotice, eq_comm]

/-- A report has the notice if its command has found a storm that no report has told of, and the driver remembers
that. -/
theorem notice_of_runs (hruns : stage.Runs follows) (hline : stage.before.1.line = line) :
    (∀ report, stage.answer.report? = some report → ∀ notice, report.notice = some notice ↔
      stage.Found line ∧ stage.before.1.stormReported = false ∧ ∃ l ∈ line, notice = .interruptStorm l.irq) ∧
    (stage.after.1.stormReported = true ↔ stage.before.1.stormReported = true ∨ stage.Alarms line) := by
  obtain ⟨hnoted, hidle⟩ := (Passage.execution hruns).recorded
    (stage.request.ensures_respond_noted (t := []) ⟨hline, rfl⟩)
  refine ⟨fun report hreport notice => ?_, ?_⟩
  · obtain ⟨stormy, hdecides, hnotice, -⟩ := hnoted report hreport
    have hnone : line = none → stormy = false := by
      rintro rfl
      exact hdecides
    rw [hnotice, due_iff hnone, found_iff hruns hdecides]
  · unfold Stage.Alarms
    cases hanswer : stage.answer.report? with
    | none =>
      have hsame : stage.after.1.stormReported = stage.before.1.stormReported := hidle hanswer
      simp [hsame]
    | some report =>
      obtain ⟨stormy, hdecides, -, hreported⟩ := hnoted report hanswer
      have hreported : stage.after.1.stormReported = (stage.before.1.stormReported || stormy) := hreported
      simp [hreported, found_iff hruns hdecides]

/-- A command that goes well has a look that decides, and that finds what was so before. -/
theorem found_of_stormy (hruns : stage.Runs follows) (hline : stage.before.1.line = line)
    (hsome : stage.answer.report?.isSome) (hstormy : stage.before.2.stormy line) : stage.Found line := by
  obtain ⟨hnoted, -⟩ := (Passage.execution hruns).recorded
    (stage.request.ensures_respond_noted (t := []) ⟨hline, rfl⟩)
  obtain ⟨report, hreport⟩ := Option.isSome_iff_exists.mp hsome
  obtain ⟨stormy, hdecides, -, -⟩ := hnoted report hreport
  cases line with
  | none => exact absurd hstormy nofun
  | some l =>
    refine (found_iff hruns hdecides).mpr ?_
    obtain ⟨u, v, hsplit, -⟩ := hdecides
    obtain ⟨before, m, later, hm, -, hpassage⟩ := exists_moment_of_history hruns hsplit
    rw [← reply_of_look hpassage (by simp) hm]
    exact (degraded_of_start hpassage hstormy).1 m (by simp)

/-- The driver remembers whether it has given the notice. -/
def Reported (line : Option Line) (stages : List (Stage Exposure)) (c : Controller) : Prop :=
  c.stormReported = true ↔ ∃ stage ∈ stages, stage.Alarms line

theorem reported_append (hruns : stage.Runs follows) (hline : stage.before.1.line = line)
    (hreported : Reported line stages stage.before.1) : Reported line (stages ++ [stage]) stage.after.1 := by
  have hbefore : stage.before.1.stormReported = true ↔ ∃ earlier ∈ stages, earlier.Alarms line := hreported
  unfold Reported
  rw [(notice_of_runs hruns hline).2, hbefore]
  simp [or_and_right, exists_or]

/-- Each stage starts with an attached controller that remembers the stages before it. -/
theorem tenure_reported {s z : Controller × Exposure} (h : Tenure follows Stirred s stages z)
    (hs : Attached line False s.1 s.2) (hnone : s.1.stormReported = false) :
    (Attached line False z.1 z.2 ∧ Reported line stages z.1) ∧
      ∀ earlier stage later, stages = earlier ++ stage :: later →
        Attached line False stage.before.1 stage.before.2 ∧ Reported line earlier stage.before.1 := by
  induction h with
  | start => exact ⟨⟨hs, by simp [Reported, hnone]⟩, by simp⟩
  | stir _ hstirred ih =>
    obtain ⟨⟨hattached, hreported⟩, hstages⟩ := ih
    exact ⟨⟨hattached.stirred hstirred, hreported⟩, hstages⟩
  | @ask stages c c' x x' answer moments request _ hpassage ih =>
    obtain ⟨⟨hattached, hreported⟩, hstages⟩ := ih
    have hruns : Stage.Runs follows ⟨request, answer, (c, x), (c', x'), moments⟩ := hpassage
    obtain ⟨-, hattached', -⟩ := runs_attached hruns hattached
    refine ⟨⟨hattached', reported_append hruns hattached.line_eq hreported⟩, ?_⟩
    intro earlier stage later hsplit
    rcases List.eq_nil_or_concat later with rfl | ⟨later, last, rfl⟩
    · obtain ⟨rfl, hlast⟩ := List.append_inj' hsplit rfl
      obtain rfl := List.head_eq_of_cons_eq hlast
      exact ⟨hattached, hreported⟩
    · rw [List.concat_eq_append, ← List.cons_append, ← List.append_assoc] at hsplit
      exact hstages earlier stage later (List.append_inj' hsplit rfl).1

/-- The stages of a controller that was attached to its line when they began, with no notice given. -/
theorem of_tenure {s z : Controller × Exposure} (h : Tenure follows Stirred s stages z)
    (hs : Attached line False s.1 s.2) (hnone : s.1.stormReported = false) : Degradation line stages := by
  obtain ⟨-, hstages⟩ := tenure_reported h hs hnone
  have hruns := h.runs
  have hattached : ∀ stage ∈ stages, Attached line False stage.before.1 stage.before.2 := by
    intro stage hstage
    obtain ⟨earlier, later, hsplit⟩ := List.append_of_mem hstage
    exact (hstages earlier stage later hsplit).1
  refine ⟨?_, ?_, ?_, ?_, ?_, ?_⟩
  · intro stage hstage hstormy report hreport
    obtain ⟨-, -, hresponded⟩ := runs_attached (hruns stage hstage) (hattached stage hstage)
    exact (hresponded hstormy).polled report hreport
  · intro stage hstage hstormy l hl moment hmoment
    obtain ⟨hspares, -, -⟩ := runs_attached (hruns stage hstage) (hattached stage hstage)
    exact hspares moment hmoment hstormy l hl
  · intro stage hstage hrequest hchannel l hl hdegraded
    exact refused_of_runs (hruns stage hstage) hrequest hchannel ((hattached stage hstage).line_eq.trans hl) hdegraded
  · intro stage hstage hstormy haccepted
    obtain ⟨-, -, hresponded⟩ := runs_attached (hruns stage hstage) (hattached stage hstage)
    exact (hresponded hstormy).off haccepted
  · intro stage hstage hsome
    exact ⟨found_of_stormy (hruns stage hstage) (hattached stage hstage).line_eq hsome,
      stormy_of_found (hruns stage hstage)⟩
  · intro earlier stage later hsplit report hreport notice
    have hstage : stage ∈ stages := by simp [hsplit]
    obtain ⟨hbefore, hreported⟩ := hstages earlier stage later hsplit
    have hreported : stage.before.1.stormReported = true ↔ ∃ before ∈ earlier, before.Alarms line := hreported
    rw [(notice_of_runs (hruns stage hstage) hbefore.line_eq).1 report hreport, Bool.eq_false_iff, Ne, hreported]
    simp only [not_exists, not_and]

end Degradation

namespace Exposure

/-- From the first call of discovery on, a storm is a storm at all times after it. -/
theorem stormy_throughout {opening : Opening} {placement : Placement} {x₀ x₁ : Exposure} {c₀ : Controller}
    {moments : List (Moment Platform Exposure)}
    (hopen : Passage follows (opening.find placement) x₀ moments (some c₀) x₁)
    (h : Tenure follows Stirred (c₀, x₁) stages (c, x)) (line : Option Line) :
    (moments.map (·.state) ++ x₁ :: (stages.flatMap Stage.states ++ [x])).Pairwise
      (fun y z => y.stormy line → z.stormy line) := by
  have htrans : ∀ y₁ y₂ y₃ : Exposure, (y₁.stormy line → y₂.stormy line) →
      (y₂.stormy line → y₃.stormy line) → y₁.stormy line → y₃.stormy line :=
    fun _ _ _ h h' hy => h' (h hy)
  obtain ⟨hbefore, -⟩ := hopen.pairwise (fun _ => id) htrans fun _ _ _ _ hy => stormy_follows hy
  have hafter := h.pairwise (fun _ => id) htrans (fun _ _ _ _ hy => stormy_follows hy)
    fun _ _ hs => Stirred.stormy hs
  exact pairwise_meet htrans hbefore hafter

theorem release_spares {moments : List (Moment Platform Exposure)} {c' : Controller}
    (h : Passage follows (Operation.release.run c) x moments ((), c') y) :
    ∀ l ∈ line, ∀ moment ∈ moments, moment.exchange.call ≠ .unmaskLine l.irq := by
  intro l hl moment hmoment
  have hkeeps : Operation.Keeps (sparing line True) (fun _ y => False → y.stormy line) Operation.release :=
    leavable_stormy.release patient_stormy.maskChannel
  have hrelease : Program.Ensures (sparing line True) (Operation.release.run c) (fun _ _ => True) x :=
    (hkeeps c x False.elim).mono fun _ _ _ _ => trivial
  exact (hrelease.passage h).1 moment hmoment trivial l hl

/-- A wait is not ended by an interrupt if the flag is set at its start, or at some look at it. -/
theorem not_interrupt_of_degraded {e : Expectation} {l : Line} {poll : Routine Bool} {ms : Nat}
    {moments : List (Moment Platform Exposure)} {r : WaitEnd × Expectation}
    (h : Passage follows (e.wait (some l) poll ms) x moments r y)
    (hdegraded : x.degraded l.id ∨ ∃ moment ∈ moments,
      moment.exchange.call = .memory (.degraded l.id) ∧ moment.state.degraded l.id) : r.1 ≠ .interrupt := by
  obtain ⟨result, e'⟩ := r
  rintro rfl
  obtain ⟨_, ⟨⟩, expected, n, u, -, hcalls, -⟩ := Expectation.caughtUp_of_wait h.execution
  obtain ⟨before, look, later, rfl, -, hlook, hlater⟩ := exists_moment_of_map hcalls
  have hcalm : look.state.degraded l.id = false := reply_of_look h (by simp) hlook
  suffices hstormy : look.state.degraded l.id by exact absurd (hcalm.symm.trans hstormy) Bool.false_ne_true
  rcases hdegraded with hstart | ⟨moment, hmoment, hcall, hstormy⟩
  · exact (degraded_of_start h hstart).1 look (by simp)
  rcases List.mem_append.mp hmoment with hbefore | hrest
  · exact (List.pairwise_append.mp (degraded_pairwise h l.id)).2.2 moment hbefore look (by simp) hstormy
  rcases List.mem_cons.mp hrest with rfl | hrest
  · exact hstormy
  -- After the look that finds the line in order, the counter is read and acknowledged, and that is all.
  · have hexchange : moment.exchange ∈ later.map (·.exchange) := List.mem_map_of_mem hrest
    rw [hlater] at hexchange
    rcases List.mem_cons.mp hexchange with hread | hread
    · rw [hread] at hcall
      cases hcall
    · rw [List.mem_singleton.mp hread] at hcall
      cases hcall

end Exposure

open Exposure in
/-- Once a line is degraded, it is for good, and in all that is asked of the controller after that the line is
left alone. No wait that begins later, or looks at the flag again, is ended by an interrupt. -/
theorem degrades_for_good (opening : Opening) (placement : Placement) {x₀ x₁ : Exposure} {c₀ : Controller}
    {moments : List (Moment Platform Exposure)} (hsound : x₀.Sound)
    (hopen : Passage follows (opening.find placement) x₀ moments (some c₀) x₁)
    (h : Tenure follows Stirred (c₀, x₁) stages (c, x)) :
    (moments.map (·.state) ++ x₁ :: (stages.flatMap Stage.states ++ [x])).Pairwise
        (fun y z => y.stormy c₀.line → z.stormy c₀.line) ∧
      Degradation c₀.line stages ∧
      (∀ (e : Expectation) (l : Line) (poll : Routine Bool) (ms : Nat) (y z : Exposure)
        (moments : List (Moment Platform Exposure)) (r : WaitEnd × Expectation),
        Passage follows (e.wait (some l) poll ms) y moments r z →
          (y.degraded l.id ∨ ∃ moment ∈ moments,
            moment.exchange.call = .memory (.degraded l.id) ∧ moment.state.degraded l.id) → r.1 ≠ .interrupt) ∧
      ∀ c' z moments, Passage follows (Operation.release.run c) x moments ((), c') z →
        ∀ l ∈ c₀.line, ∀ moment ∈ moments, moment.exchange.call ≠ .unmaskLine l.irq := by
  obtain ⟨-, hfound⟩ := (attached_find opening placement hsound).passage hopen
  obtain ⟨hattached, hnone⟩ := hfound c₀ rfl
  refine ⟨stormy_throughout hopen h c₀.line, .of_tenure h hattached hnone, ?_, fun _ _ _ => release_spares⟩
  exact fun _ _ _ _ _ _ _ _ hpassage => not_interrupt_of_degraded hpassage

/-- A storm that comes between the look at the flag and the reading of the counter: the wait that is still going on is
ended by an interrupt. Another controller on the line, after a release, unmasks it again. -/
theorem interrupted_in_storm : ∃ (x₀ x₁ x x₂ x₃ : Exposure) (c₀ c c' c₁ : Controller)
    (moments moments' moments'' : List (Moment Platform Exposure)) (stage : Stage Exposure), x₀.Sound ∧
      Passage Exposure.follows (Opening.discover.find ⟨0x3F0, some 6, some 2⟩) x₀ moments (some c₀) x₁ ∧
      Tenure Exposure.follows Exposure.Stirred (c₀, x₁) [stage] (c, x) ∧
      (∃ report, stage.answer.report? = some report ∧ report.endedBy = .interrupt) ∧
      (∃ moment ∈ stage.moments, moment.exchange.call = .memory (.fired 0) ∧ moment.state.stormy c₀.line) ∧
      Passage Exposure.follows (Operation.release.run c) x moments' ((), c') x₂ ∧
      Passage Exposure.follows (Opening.discover.find ⟨0x3F0, some 6, some 2⟩) x₂ moments'' (some c₁) x₃ ∧
      ∃ moment ∈ moments'', moment.exchange.call = .unmaskLine 6 ∧ moment.state.stormy c₀.line := by
  let find := Opening.discover.find ⟨0x3F0, some 6, some 2⟩
  let seek := (Request.execute (.seek 2)).respond
  let plain := fun m : Simulated => m.interrupts.exposure
  let breaking := fun s : Simulated × Nat => s.1.interrupts.exposure
  -- The look of the wait is the seventeenth call of the seek.
  have hfacts : let found := find.run Simulated.machine {}
      found.1.any fun c =>
        let sought := (seek.run c).run (Simulated.breaking 6) (found.2, 17)
        let released := (Operation.release.run sought.1.2).run Simulated.machine sought.2.1
        c.line == some ⟨6, 0⟩ && sought.1.1.report?.any (fun report => report.endedBy == .interrupt) &&
          ((seek.run c).moments (Simulated.breaking 6) breaking (found.2, 17)).any (fun moment =>
            moment.exchange.call == .memory (.fired 0) && moment.state.degraded 0) &&
          (find.run Simulated.machine released.2).1.isSome &&
          (find.moments Simulated.machine plain released.2).any fun moment =>
            moment.exchange.call == .unmaskLine 6 && moment.state.degraded 0 := by decide +kernel
  have hopen := (Exposure.keepsTo_exposed (φ := fun _ => True)).passage_moments find {}
  generalize find.run Simulated.machine {} = found at hfacts hopen
  obtain ⟨_ | c₀, m₁⟩ := found
  · exact absurd hfacts Bool.false_ne_true
  have hask := (Simulated.keepsTo_breaking (φ := fun _ => True) 6).passage_moments (seek.run c₀) (m₁, 17)
  simp only [Option.any_some, Bool.and_eq_true, beq_iff_eq, List.any_eq_true] at hfacts
  generalize (seek.run c₀).run (Simulated.breaking 6) (m₁, 17) = sought at hfacts hask
  obtain ⟨⟨answer, c⟩, m₂, _⟩ := sought
  have hrelease := (Exposure.keepsTo_exposed (φ := fun _ => True)).passage_moments (Operation.release.run c) m₂
  generalize (Operation.release.run c).run Simulated.machine m₂ = released at hfacts hrelease
  obtain ⟨⟨⟨⟩, c'⟩, m₃⟩ := released
  have hagain := (Exposure.keepsTo_exposed (φ := fun _ => True)).passage_moments find m₃
  generalize find.run Simulated.machine m₃ = again at hfacts hagain
  obtain ⟨found', m₄⟩ := again
  obtain ⟨⟨⟨⟨hline, hinterrupt⟩, read, hread, hcall, hstormy⟩, hsome⟩, unmask, hunmask, hcall', hstormy'⟩ := hfacts
  obtain ⟨c₁, rfl⟩ := Option.isSome_iff_exists.mp hsome
  obtain ⟨report, hreport, hends⟩ := (Option.any_eq_true _ _).mp hinterrupt
  refine ⟨_, _, _, _, _, c₀, c, c', c₁, _, _, _, _, Exposure.sound_fresh, hopen, .ask (.execute (.seek 2)) .start hask, ?_, ?_,
    hrelease, hagain, ?_⟩
  · exact ⟨report, hreport, eq_of_beq hends⟩
  · exact ⟨read, hread, hcall, by rw [hline]; exact hstormy⟩
  · exact ⟨unmask, hunmask, hcall', by rw [hline]; exact hstormy'⟩

theorem Simulated.core_storm (irq : UInt8) (m : Simulated) : (m.storm irq).core = m.core := by
  unfold storm
  split
  · split <;> rfl
  · rfl

/-- A seek on a machine with nothing wrong goes well, interrupts or not. -/
theorem passage_seek {m : Simulated} (hsettled : Settled c m.core) (hf : m.core.faults.Harmless) (cylinder : UInt8) :
    ∃ report c' m' moments, Passage Exposure.follows ((Request.execute (.seek cylinder)).respond.run c)
      m.interrupts.exposure moments (.outcome (.ok report), c') (Simulated.interrupts m').exposure := by
  have hseek : Operation.Ensures Core.surroundings (Request.execute (.seek cylinder)).respond
      (fun answer _ _ => ∃ report, answer = .outcome (.ok report)) c m.core := by
    have hvalid : (Command.seek cylinder).validate = .ok () := rfl
    refine Operation.ensures_bind.mpr ((ensures_execute_simulated hsettled.sound hf hvalid rfl).mono ?_)
    rintro _ _ _ ⟨report, rfl, -⟩
    exact ⟨report, rfl⟩
  have hgood := Program.Ensures.run Core.keepsTo hseek
  obtain ⟨moments, hpassage⟩ := (Exposure.keepsTo_exposed (φ := fun _ => True)).passage
    ((Request.execute (.seek cylinder)).respond.run c) m
  generalize ((Request.execute (.seek cylinder)).respond.run c).run Simulated.machine m = result at hgood hpassage
  obtain ⟨⟨answer, c'⟩, m'⟩ := result
  obtain ⟨report, rfl⟩ := hgood
  exact ⟨report, c', m', moments, hpassage⟩

/-- A storm between discovery and a seek: the seek goes well, ends by polling, and its report has the notice. -/
theorem degrades_in_storm : ∃ (x₀ x₁ x : Exposure) (c₀ c : Controller)
    (moments : List (Moment Platform Exposure)) (stages : List (Stage Exposure)), x₀.Sound ∧
      Passage Exposure.follows (Opening.discover.find ⟨0x3F0, some 6, some 2⟩) x₀ moments (some c₀) x₁ ∧
      Tenure Exposure.follows Exposure.Stirred (c₀, x₁) stages (c, x) ∧ Degradation c₀.line stages ∧
      ∃ stage ∈ stages, ∃ report, stage.answer.report? = some report ∧ report.endedBy = .polling ∧
        report.notice = some (.interruptStorm 6) := by
  have hsound := Exposure.sound_fresh
  obtain ⟨c₀, m, hrun, hfound⟩ := discover_fresh (some 6) (some 2)
  have hfacts : let r := (Controller.discover ⟨0x3F0, some 6, some 2⟩).run Simulated.machine {}
      r.1.bind (fun c => c.line) = some ⟨6, 0⟩ ∧ (r.2.storm 6).interrupts.exposure.degraded 0 := by decide +kernel
  obtain ⟨moments, hopen⟩ := (Exposure.keepsTo_exposed (φ := fun _ => True)).passage
    (Opening.discover.find ⟨0x3F0, some 6, some 2⟩) {}
  change Passage _ _ _ _ ((Controller.discover ⟨0x3F0, some 6, some 2⟩).run Simulated.machine {}).1
    ((Controller.discover ⟨0x3F0, some 6, some 2⟩).run Simulated.machine {}).2.interrupts.exposure at hopen
  rw [hrun] at hfacts hopen
  obtain ⟨hline, hdegraded⟩ := hfacts
  replace hline : c₀.line = some ⟨6, 0⟩ := hline
  have hsettled : Settled c₀ (m.storm 6).core := m.core_storm 6 ▸ hfound.settled rfl
  have hharmless : (m.storm 6).core.faults.Harmless := by
    rw [m.core_storm 6, hfound.kept.faults]
    exact ⟨rfl, rfl, rfl, rfl, rfl⟩
  obtain ⟨report, c, m', moments', hask⟩ := passage_seek hsettled hharmless 2
  have htenure := Tenure.ask (.execute (.seek 2))
    (.stir (.start (x := (c₀, m.interrupts.exposure))) (m.stirred_storm 6)) hask
  obtain ⟨-, hdegradation, -⟩ := degrades_for_good .discover ⟨0x3F0, some 6, some 2⟩ hsound hopen htenure
  have hstormy : (m.storm 6).interrupts.exposure.stormy c₀.line := by
    rw [hline]
    exact hdegraded
  refine ⟨_, _, _, c₀, c, moments, _, hsound, hopen, htenure, hdegradation, _, List.mem_singleton_self _,
    report, rfl, ?_, ?_⟩
  · exact hdegradation.polled _ (List.mem_singleton_self _) hstormy report rfl
  · rw [hdegradation.noticed [] _ [] rfl report rfl]
    exact ⟨(hdegradation.found _ (List.mem_singleton_self _) rfl).1 hstormy, by simp, ⟨6, 0⟩, hline, rfl⟩

end Diskette
