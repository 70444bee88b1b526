import Diskette.Proofs.Footprint.Bounce
import Diskette.Proofs.Ownership.Spurious

/-!
What the driver reaches for. On whatever platform, and whatever comes of what is asked of it, it reads and writes
registers of its controller only, and calls on no other line and no other channel than those it was granted when it was
found. Of the bounce buffer it fills no more than a payload takes that goes out through the channel.
-/
namespace Diskette

variable {σ : Type} {follows : σ → (c : Platform.Call) → Platform.Reply c → σ → Prop} {stirs : σ → σ → Prop}
  {placement : Placement} {opening : Opening} {stored : List UInt8 → Prop} {c c' : Controller} {s s₀ s₁ : σ}
  {stages : List (Stage σ)} {moments : List (Moment Platform σ)} {found : Option Controller}

/-- Ends the interrupts of a line, masks it, and counts its fires. -/
def Service.Call.Minds (line : Line) : Service.Call → Prop
  | .endOfInterrupt irq | .mask irq => irq = line.irq
  | .countFire id => id = line.id

theorem Handler.only_serve_counting (line : Line) : (Handler.counting line).serve.Only (Service.Call.Minds line) :=
  .bind (.perform rfl) fun _ => .bind (.perform rfl) fun _ => .ite (.perform rfl) .done

namespace Placement

/-- The line is the one that was accepted, and there is a channel to go with it. -/
structure OwnsLine (placement : Placement) (irq : UInt8) : Prop where
  accepted : placement.irq.filter usableIrq = some irq
  channeled : (placement.channel.filter usableChannel).isSome

/-- Calls on what a controller was granted, and on what is for everyone. -/
def Owns (placement : Placement) : Platform.Call → Prop
  | .input port => Port.Reads placement.base port
  | .output port _ => Port.Writes placement.base port
  | .maskLine irq | .unmaskLine irq | .restore irq _ => placement.OwnsLine irq
  | .bind irq handler =>
    placement.OwnsLine irq ∧ ∃ line : Line, line.irq = irq ∧ handler.serve.Only (Service.Call.Minds line)
  | .endOfInterrupt _ => False
  | .channel number _ => placement.channel.filter usableChannel = some number
  | .memory _ | .delay _ | .suppress | .resume _ | .log _ _ => True

/-- Surroundings where a controller keeps to what it was granted, and puts certain bytes only into the bounce
buffer. -/
def within (placement : Placement) (stored : List UInt8 → Prop)
    (follows : σ → (c : Platform.Call) → Platform.Reply c → σ → Prop) : Surroundings Platform σ where
  permits _ call := placement.Owns call ∧ ∀ bytes, call.Stores bytes → stored bytes
  follows := follows

end Placement

/-- A controller holds what it was granted, and no line without a channel. -/
structure Controller.Granted (placement : Placement) (c : Controller) : Prop where
  base_eq : c.base = placement.base
  irq_eq : c.irq = placement.irq.filter Placement.usableIrq
  channel_eq : c.channel = placement.channel.filter Placement.usableChannel
  channeled : c.hooked → c.channel.isSome

namespace Controller.Granted

theorem of_eq (h : c.Granted placement) (hbase : c'.base = c.base) (hline : c'.line = c.line)
    (hchannel : c'.channel = c.channel) (hhooked : c'.hooked = c.hooked) : c'.Granted placement := by
  refine ⟨hbase.trans h.base_eq, ?_, hchannel.trans h.channel_eq, ?_⟩
  · rw [Controller.irq, hline]
    exact h.irq_eq
  · rw [hhooked, hchannel]
    exact h.channeled

theorem ownsLine {irq : UInt8} (h : c.Granted placement) (hirq : c.irq = some irq) (hchannel : c.channel.isSome) :
    placement.OwnsLine irq := ⟨h.irq_eq.symm.trans hirq, h.channel_eq ▸ hchannel⟩

theorem of_wiring (h : c.Granted placement) (hc : c'.wiring = c.wiring) : c'.Granted placement :=
  h.of_eq (Controller.base_of_wiring hc) (Controller.line_of_wiring hc) (Controller.channel_of_wiring hc)
    (Controller.hooked_of_wiring hc)

theorem writes {port : UInt16} {value : UInt8} (h : c.Granted placement) (hport : Port.Writes c.base port) :
    placement.Owns (.output port value) := by
  rw [h.base_eq] at hport
  exact hport

theorem ordinary {call : Platform.Call} (h : c.Granted placement) (hcall : Ordinary c call) : placement.Owns call := by
  cases call with
  | input port =>
    have hport : Port.Reads c.base port := hcall
    rw [h.base_eq] at hport
    exact hport
  | output port value => exact h.writes hcall.1
  | channel number call => exact h.channel_eq.symm.trans hcall.1
  | memory | delay | suppress | resume | log => trivial
  | _ => exact hcall.elim

theorem givesUp {call : Platform.Call} (h : c.Granted placement) (hcall : GivesUp c call) : placement.Owns call := by
  cases call with
  | maskLine irq => exact h.ownsLine hcall.1 (h.channeled hcall.2)
  | restore irq prior => exact h.ownsLine hcall.1 (h.channeled hcall.2)
  | memory | suppress | resume | log => trivial
  | _ => exact hcall.elim

end Controller.Granted

abbrev Granted (placement : Placement) (c : Controller) (_ : σ) : Prop := c.Granted placement

theorem steady_granted : Steady (placement.within stored follows) (Granted placement) where
  wiring hc h := h.of_wiring hc
  ordinary hcall h :=
    ⟨⟨h.ordinary hcall, fun bytes hstores => absurd hstores (not_stores_of_ordinary hcall bytes)⟩, fun _ _ _ => h⟩

theorem leavable_granted : Leavable (placement.within stored follows) (Granted placement) where
  stance hc h := h.of_wiring (Controller.wiring_of_footing (Controller.footing_of_stance hc))
  givesUp hcall h :=
    ⟨⟨h.givesUp hcall, fun bytes hstores => absurd hstores (not_stores_of_givesUp hcall bytes)⟩, fun _ _ _ => h⟩
  takePrior h := ⟨h.base_eq, h.irq_eq, h.channel_eq, h.channeled⟩
  unhook h := ⟨h.base_eq, h.irq_eq, h.channel_eq, nofun⟩
  toPort h := ⟨h.base_eq, h.irq_eq, h.channel_eq, h.channeled⟩
  writeOutput _ c s h := by
    refine Operation.ensures_shadowed.mpr ⟨⟨h.writes Port.writes_digitalOutput, nofun⟩, fun _ _ _ => ?_⟩
    exact h.of_eq rfl rfl rfl rfl

/-- A line is hooked only where there is a channel. -/
theorem granted_hookLine {line : Line} (h : c.Granted placement) (hline : c.line = some line)
    (hchannel : c.channel.isSome) :
    Operation.Ensures (placement.within stored follows) (Operation.hookLine line) (fun _ => Granted placement) c s := by
  have hirq : c.irq = some line.irq := by rw [Controller.irq, hline]; rfl
  have howns : placement.OwnsLine line.irq := h.ownsLine hirq hchannel
  have hspares : ∀ {call : Platform.Call}, (∀ call', call ≠ .memory call') → ∀ bytes, call.Stores bytes → stored bytes :=
    fun hcall bytes hstores => absurd hstores (hcall _)
  simp only [Operation.hookLine, Operation.ensures_bind, Operation.ensures_lift, Operation.ensures_shadowed,
    Operation.ensures_modify, Operation.ensures_log]
  refine ⟨⟨howns, hspares (by simp)⟩, fun _ _ _ => ?_⟩
  refine ⟨⟨h.writes Port.writes_digitalOutput, hspares (by simp)⟩, fun _ _ _ => ?_⟩
  refine ⟨⟨trivial, hspares (by simp)⟩, fun _ _ _ => ?_⟩
  refine ⟨⟨⟨howns, line, rfl, Handler.only_serve_counting line⟩, hspares (by simp)⟩, fun _ _ _ => ?_⟩
  refine ⟨⟨trivial, hspares (by simp)⟩, fun _ _ _ => ?_⟩
  refine ⟨⟨trivial, by simp [Platform.Call.Stores]⟩, fun _ _ _ => ?_⟩
  refine ⟨⟨howns, hspares (by simp)⟩, fun _ _ _ => ?_⟩
  refine ⟨⟨trivial, hspares (by simp)⟩, fun _ _ _ => ?_⟩
  exact ⟨h.base_eq, h.irq_eq, h.channel_eq, fun _ => hchannel⟩

theorem serviceable_granted : Serviceable (placement.within stored follows) (Granted placement) := by
  refine steady_granted.serviceable (fun _ h => h.of_eq rfl rfl rfl rfl) ?_ leavable_granted.disableDma
  refine .enableDma fun c s line h hline hchannel => ⟨⟨trivial, nofun⟩, fun stormy s' _ => ⟨h, fun _ _ => ?_⟩⟩
  exact granted_hookLine h hline hchannel

/-- Bytes that a request may put into the bounce buffer: those it writes. -/
def Request.Stores : Request → List UInt8 → Prop
  | .executeWith (.write _) transfer, bytes => ∃ source, transfer.buffer = .source source ∧ bytes = source.take transfer.length
  | _, _ => False

theorem Command.eq_write {command : Command} {span : SectorSpan} (h : command.transfer? = some (span, .fromMemory)) :
    command = .write span := by
  cases command <;> simp_all [Command.transfer?]

theorem granted_respond (request : Request) :
    Operation.Keeps (placement.within request.Stores follows) (Granted placement) request.respond := by
  refine serviceable_granted.respond request fun command t hrequest => ?_
  refine serviceable_granted.perform (F := fun _ => Granted placement) (fun hprepared => ?_)
    fun cause h => steady_granted.enduring.recover command cause _ _ h
  refine steady_granted.enduring.carryOut _ _ _ fun transfer htransfer => ?_
  obtain rfl : t = some transfer := htransfer
  obtain ⟨span, hfits⟩ := hprepared.payload
  refine ⟨fun hchannel h => ⟨⟨h.channel_eq.symm.trans hchannel, nofun⟩, fun _ _ _ => h⟩, fun _ h => ?_⟩
  have hwrites : ∀ source, transfer.buffer = .source source → request.Stores (source.take transfer.length) := by
    intro source hsource
    obtain rfl : command = .write span := Command.eq_write (by
      rw [hfits.data, Transfer.direction, hsource]
      rfl)
    obtain rfl : request = .executeWith (.write span) transfer := by
      cases request <;> simp_all [Request.command?]
    exact ⟨source, hsource, rfl⟩
  unfold Operation.fillBounce
  split
  · rename_i source hsource
    refine ⟨⟨trivial, ?_⟩, fun _ _ _ => h⟩
    rintro _ ⟨⟩
    exact hwrites source hsource
  · exact h

theorem findable_within (hlines : ∀ s irq line s', follows s (.memory (.createLine irq)) line s' → line.irq = irq) :
    Controller.Findable (placement.within (fun _ => False) follows) placement (fun _ => True)
      (fun line _ => line.map (·.irq) = placement.irq.filter Placement.usableIrq) where
  finds := by
    intro s call hcall _
    cases call with
    | input port => exact ⟨⟨hcall, nofun⟩, fun _ _ _ => trivial⟩
    | output port value =>
      obtain rfl : port = Port.digitalOutput placement.base := hcall.1
      exact ⟨⟨Port.writes_digitalOutput, nofun⟩, fun _ _ _ => trivial⟩
    | log => exact ⟨⟨trivial, nofun⟩, fun _ _ _ => trivial⟩
    | _ => exact hcall.elim
  opens := by
    intro s _
    cases placement.irq.filter Placement.usableIrq with
    | none => exact rfl
    | some irq =>
      refine ⟨⟨trivial, nofun⟩, fun line s' hcreated => ?_⟩
      exact congrArg some (hlines s irq line s' hcreated)

theorem granted_new (hc : c.New placement) (hline : c.line.map (·.irq) = placement.irq.filter Placement.usableIrq) :
    c.Granted placement := ⟨hc.base_eq, hline, hc.channel_eq, by simp [hc.hooked]⟩

theorem ensures_find_granted (opening : Opening)
    (hlines : ∀ s irq line s', follows s (.memory (.createLine irq)) line s' → line.irq = irq) :
    (opening.find placement).Ensures (placement.within (fun _ => False) follows)
      (fun found _ => ∀ c ∈ found, c.Granted placement) s :=
  (findable_within hlines).find (G := Granted placement) (fun _ _ hc hline => granted_new hc hline)
    serviceable_granted.bringUp opening trivial

/-- Every call is on what was granted, and the bounce buffer is left as it is. -/
def Placement.Contains (placement : Placement) (moments : List (Moment Platform σ)) : Prop :=
  ∀ x ∈ moments, placement.Owns x.exchange.call ∧ x.exchange.call.SparesAfter 0

theorem Program.Ensures.contains {α : Type} {p : Routine α} {Q : α → σ → Prop} {a : α}
    (hp : p.Ensures (placement.within (fun _ => False) follows) Q s) (h : Passage follows p s moments a s₁) :
    placement.Contains moments ∧ Q a s₁ := by
  obtain ⟨hmoments, hQ⟩ := hp.passage h
  refine ⟨fun x hx => ⟨(hmoments x hx).1, ?_⟩, hQ⟩
  exact Platform.Call.sparesAfter_of_stores fun bytes hstores => ((hmoments x hx).2 bytes hstores).elim

namespace Stage

/-- When so many calls of a request have been made, the DMA path is taken: it was before, and its line has not been given
back since. -/
structure OnChannel (stage : Stage σ) (before : List (Moment Platform σ)) : Prop where
  taken : stage.before.1.path = .channel
  kept : ∀ x ∈ before, ¬x.exchange.call.Returns

/-- Every call is on what was granted, and the bounce buffer is left as it is but for what is written through the
channel. -/
structure Contained (placement : Placement) (stage : Stage σ) : Prop where
  owned : ∀ x ∈ stage.moments, placement.Owns x.exchange.call
  spares : ∀ before x after, stage.moments = before ++ x :: after → x.exchange.call.SparesAfter 0 ∨
    ∃ span transfer, stage.request = .executeWith (.write span) transfer ∧ stage.OnChannel before ∧
      x.exchange.call.SparesAfter transfer.length

theorem Runs.timely {stage : Stage σ} {command : Command} {transfer : Transfer} (h : stage.Runs follows)
    (hrequest : stage.request = .executeWith command transfer) : Timely stage.before.1.path stage.history := by
  obtain ⟨request, answer, ⟨c, s⟩, ⟨c', s'⟩, moments⟩ := stage
  obtain rfl : request = .executeWith command transfer := hrequest
  have honward : Operation.Keeps recorded (Onward c.path) (Request.executeWith command transfer).respond :=
    .bind (.bind (onward_perform command (some transfer)) fun _ => .pure) fun _ => .pure
  exact (h.execution.recorded (honward c [] ⟨timely_nil, by simp⟩)).timely

theorem Runs.contained {stage : Stage σ} (h : stage.Runs follows) (hgranted : stage.before.1.Granted placement) :
    stage.Contained placement ∧ stage.after.1.Granted placement := by
  obtain ⟨hmoments, hafter⟩ := (granted_respond stage.request stage.before.1 stage.before.2 hgranted).passage h
  refine ⟨⟨fun x hx => (hmoments x hx).1, fun before x after hsplit => ?_⟩, hafter⟩
  have hx : x ∈ stage.moments := by simp [hsplit]
  by_cases hstores : ∃ bytes, x.exchange.call.Stores bytes
  · obtain ⟨bytes, hbytes⟩ := hstores
    have hrequest := (hmoments x hx).2 bytes hbytes
    cases hasked : stage.request with
    | executeWith command transfer =>
      rw [hasked] at hrequest
      cases command with
      | write span =>
        obtain ⟨source, -, rfl⟩ := hrequest
        have htimely := h.timely hasked
        refine .inr ⟨span, transfer, rfl, ⟨htimely.taken _ (List.mem_map_of_mem hx) _ hbytes, ?_⟩, ?_⟩
        · intro earlier hearlier hreturns
          have hkept := htimely.kept
          rw [history, hsplit, List.map_append] at hkept
          exact (List.pairwise_append.mp hkept).2.2 _ (List.mem_map_of_mem hearlier) _ (by simp) hreturns _ hbytes
        · refine Platform.Call.sparesAfter_of_stores fun bytes' hbytes' => ?_
          obtain rfl : bytes' = source.take transfer.length := by simpa using hbytes'.symm.trans hbytes
          exact List.length_take_le _ _
      | _ => exact hrequest.elim
    | _ => rw [hasked] at hrequest; exact hrequest.elim
  · exact .inl (Platform.Call.sparesAfter_of_stores fun bytes hbytes => absurd ⟨bytes, hbytes⟩ hstores)

end Stage

theorem tenure_contained {x z : Controller × σ} (h : Tenure follows stirs x stages z) (hx : x.1.Granted placement) :
    z.1.Granted placement ∧ ∀ stage ∈ stages, stage.Contained placement := by
  induction h with
  | start => exact ⟨hx, by simp⟩
  | stir _ _ ih => exact ih
  | @ask stages c c' s s' answer moments request _ hask ih =>
    obtain ⟨hgranted, hcontained⟩ := ih
    have hruns : (⟨request, answer, (c, s), (c', s'), moments⟩ : Stage σ).Runs follows := hask
    obtain ⟨hlast, hafter⟩ := hruns.contained hgranted
    refine ⟨hafter, fun stage hstage => ?_⟩
    rcases List.mem_append.mp hstage with hold | hnew
    · exact hcontained stage hold
    · obtain rfl := List.mem_singleton.mp hnew
      exact hlast

/-- From the first look for it to its release, a controller is used without reaching for anything but what it was
granted: if it is there at all, and whatever is asked of it, whatever comes of that, and whatever happens in between. Of
the platform it is known only that new counters are for the line they were asked for. -/
theorem stays_within (hlines : ∀ s irq line s', follows s (.memory (.createLine irq)) line s' → line.irq = irq)
    (hfound : Passage follows (opening.find placement) s₀ moments found s₁) :
    placement.Contains moments ∧ ∀ c₀ ∈ found, ∀ stages c s, Tenure follows stirs (c₀, s₁) stages (c, s) →
      (∀ stage ∈ stages, stage.Contained placement) ∧
      ∀ moments' c' s', Passage follows (Operation.release.run c) s moments' ((), c') s' →
        placement.Contains moments' := by
  obtain ⟨hopening, hgranted⟩ := (ensures_find_granted opening hlines).contains hfound
  refine ⟨hopening, fun c₀ hc₀ stages c s htenure => ?_⟩
  obtain ⟨hc, hstages⟩ := tenure_contained htenure (hgranted c₀ hc₀)
  refine ⟨hstages, fun moments' c' s' hrelease => ?_⟩
  have hreleases : Operation.Ensures (placement.within (fun _ => False) follows) Operation.release
      (fun _ => Granted placement) c s := leavable_granted.release steady_granted.calm.maskChannel c s hc
  exact (hreleases.contains hrelease).1

/-- A controller is discovered, writes a sector through its channel and is released. -/
theorem stays_within_written : ∃ (m₀ m₁ m m' : Simulated) (c₀ c c' : Controller)
    (moments moments' : List (Moment Platform Simulated)) (stages : List (Stage Simulated)),
    (∀ m irq line m', Simulated.restless.follows m (.memory (.createLine irq)) line m' → line.irq = irq) ∧
      Passage Simulated.restless.follows (Opening.discover.find ⟨0x3F0, some 6, some 2⟩) m₀ moments (some c₀) m₁ ∧
      Tenure Simulated.restless.follows Simulated.Reacts (c₀, m₁) stages (c, m) ∧
      Passage Simulated.restless.follows (Operation.release.run c) m moments' ((), c') m' ∧
      Placement.Contains ⟨0x3F0, some 6, some 2⟩ moments ∧
      (∀ stage ∈ stages, stage.Contained ⟨0x3F0, some 6, some 2⟩) ∧
      Placement.Contains ⟨0x3F0, some 6, some 2⟩ moments' ∧ c₀.path = .channel ∧
      m.interrupts.memory.bounce = Array.replicate 128 7 := by
  let m₀ : Simulated := { interrupts := { memory := { bounce := Array.replicate 128 0 } } }
  let writing : Request := .executeWith (.write ⟨0, 0, 1, 0, 1⟩) (.write (List.replicate 128 7))
  have hfacts : let r := (Controller.discover ⟨0x3F0, some 6, some 2⟩).run Simulated.machine m₀
      r.1.map (fun c => (c.path, (writing.respond.run c).run Simulated.machine r.2 |>.2.interrupts.memory.bounce)) =
        some (.channel, Array.replicate 128 7) := by
    decide +kernel
  have hlines : ∀ m irq line m', Simulated.restless.follows m (.memory (.createLine irq)) line m' → line.irq = irq := by
    rintro m irq line m' ⟨_, hstep, -⟩
    exact congrArg (fun r => r.1.irq) hstep.symm
  obtain ⟨moments, hopen⟩ :=
    Simulated.keepsTo_restless.passage (Opening.discover.find ⟨0x3F0, some 6, some 2⟩) m₀
  change Passage _ _ _ _ ((Controller.discover ⟨0x3F0, some 6, some 2⟩).run Simulated.machine m₀).1
    ((Controller.discover ⟨0x3F0, some 6, some 2⟩).run Simulated.machine m₀).2 at hopen
  generalize (Controller.discover ⟨0x3F0, some 6, some 2⟩).run Simulated.machine m₀ = result at hfacts hopen
  obtain ⟨found, m₁⟩ := result
  obtain ⟨c₀, hfound, hc₀⟩ := Option.map_eq_some_iff.mp hfacts
  obtain ⟨hpath, hbounce⟩ := Prod.mk.inj hc₀
  replace hfound : found = some c₀ := hfound
  rw [hfound] at hopen
  obtain ⟨moments₁, hwrite⟩ := Simulated.keepsTo_restless.passage (writing.respond.run c₀) m₁
  dsimp only at hbounce
  generalize (writing.respond.run c₀).run Simulated.machine m₁ = written at hbounce hwrite
  obtain ⟨⟨answer, c⟩, m⟩ := written
  have htenure : Tenure Simulated.restless.follows Simulated.Reacts (c₀, m₁) _ (_, _) := Tenure.start.ask _ hwrite
  obtain ⟨moments', hrelease⟩ := Simulated.keepsTo_restless.passage (Operation.release.run c) m
  generalize (Operation.release.run c).run Simulated.machine m = released at hrelease
  obtain ⟨⟨_, c'⟩, m'⟩ := released
  obtain ⟨hopening, hused⟩ := stays_within hlines hopen
  obtain ⟨hstages, hreleased⟩ := hused c₀ rfl _ _ _ htenure
  exact ⟨m₀, m₁, m, m', c₀, c, c', moments, moments', _, hlines, hopen, htenure, hrelease, hopening, hstages,
    hreleased _ _ _ hrelease, hpath, hbounce⟩

end Diskette
