import Diskette.Proofs.Arming.Window

/-!
What a command does to the DMA channels. It arms none, unless it moves a payload on the DMA path; then it arms the
accepted channel once, for that payload.
-/
namespace Diskette

variable {x c c' : Controller} {command : Command} {span : SectorSpan} {t : Transfer} {h : History Platform}
  {cause : Failure} {taken : List UInt8} {channel : Option UInt8} {P : History Platform → Prop}

theorem since_perform_none (command : Command) :
    Operation.Keeps recorded (Since channel P) (Operation.perform command none) :=
  serviceable_since.perform (F := fun _ => Since channel P)
    (fun _ => steady_since.enduring.carryOut_of_transfer command _ none (by simp))
    fun cause h => steady_since.enduring.recover command cause _ _ h

/-- The controller as it was when it was given a command, as far as that command does not change it: it may leave the
DMA path, but does not take it. -/
structure Within (x c : Controller) : Prop where
  base_eq : c.base = x.base
  line_eq : c.line = x.line
  path : c.path = .channel → x.path = .channel

/-- Nothing has been armed, and the bounce buffer was found to be large enough. -/
structure Roomy (x : Controller) (t : Transfer) (h : History Platform) : Prop where
  unarmed : ∀ e ∈ h, Unarmed x.channel e.call
  fits : ∃ capacity : Nat, ⟨.memory .bounceSize, capacity⟩ ∈ h ∧ t.length ≤ capacity

theorem Within.of_wiring (h : Within x c) (hc : c'.wiring = c.wiring) : Within x c' :=
  ⟨(Controller.base_of_wiring hc).trans h.base_eq, (Controller.line_of_wiring hc).trans h.line_eq,
    Controller.path_of_wiring hc ▸ h.path⟩

theorem Roomy.append {u v : History Platform} (h : Roomy x t u) (hv : ∀ e ∈ v, Unarmed x.channel e.call) :
    Roomy x t (u ++ v) := by
  obtain ⟨hunarmed, capacity, hcapacity, hlength⟩ := h
  refine ⟨fun e he => ?_, capacity, List.mem_append_left v hcapacity, hlength⟩
  rcases List.mem_append.mp he with hold | hnew
  · exact hunarmed e hold
  · exact hv e hnew

/-- An accepted command on its way to the transfer. -/
def Underway (x : Controller) (t : Transfer) (c : Controller) (h : History Platform) : Prop :=
  Since x.channel (Roomy x t) c h ∧ Within x c

theorem Underway.roomy (h' : Underway x t c h) : Roomy x t h := by
  obtain ⟨⟨-, u, v, rfl, hu, hv⟩, -⟩ := h'
  exact hu.append hv

theorem steady_underway : Steady recorded (Underway x t) := steady_since.and fun hc h => h.of_wiring hc

theorem leavable_underway : Leavable recorded (Underway x t) where
  stance := steady_underway.calm.stance
  givesUp hcall h := (leavable_since.givesUp hcall h.1).imp_right fun hf r s hr => ⟨hf r s hr, h.2⟩
  writeOutput _ := by
    intro c h' hc
    rw [Operation.ensures_shadowed]
    refine Program.ensures_recorded.mpr fun _ => ⟨(hc.1.follows (by trivial)).of_channel rfl, ?_⟩
    exact ⟨hc.2.base_eq, hc.2.line_eq, hc.2.path⟩
  takePrior h := ⟨h.1.of_channel rfl, h.2.base_eq, h.2.line_eq, h.2.path⟩
  unhook h := ⟨h.1.of_channel rfl, h.2.base_eq, h.2.line_eq, h.2.path⟩
  toPort h := ⟨h.1.of_channel rfl, h.2.base_eq, h.2.line_eq, nofun⟩

/-- Where a command breaks off: what failed is told next. -/
def Stopped (x : Controller) (command : Command) (t : Transfer) (cause : Failure) (c : Controller)
    (h : History Platform) : Prop :=
  c.base = x.base ∧ c.channel = x.channel ∧ (Restrained x command t h ∨ HalfSent x command t cause h)

theorem Underway.stopped (h' : Underway x t c h) : Stopped x command t cause c h :=
  ⟨h'.2.base_eq, h'.1.channel_eq, .inl (.inl h'.roomy.unarmed)⟩

theorem Stopped.restrained (h' : Stopped x command t cause c h) :
    Since x.channel (Restrained x command t) c (h ++ [⟨.log c.base (.failed command cause), ()⟩]) := by
  obtain ⟨hbase, hchannel, hrestrained | hhalf⟩ := h'
  · exact (Since.start hchannel hrestrained).follows (by trivial)
  · rw [hbase]
    exact .start hchannel hhalf.restrained

/-- The channel is armed for the transfer of the command that is sent. -/
theorem ensures_sendCommand_armed {number : UInt8} {line : Line} {address : UInt32} (hfits : t.Fits command span)
    (hpath : x.path = .channel) (hchannel : x.channel = some number) (hline : x.line = some line)
    (haddress : ⟨.memory .bounceAddress, address⟩ ∈ h) (h' : Underway x t c h) :
    Attempt.Ensures recorded
      (Operation.sendCommand (command.bytes x.drive x.recording) true (some ⟨number, t.direction, address, t.length⟩))
      (fun _ c' h' => c'.base = x.base ∧ Since x.channel (ArmedBy x command t) c' h')
      (fun cause => Stopped x command t cause) c h := by
  obtain ⟨hunarmed, capacity, hcapacity, hlength⟩ := h'.roomy
  have hvalid := Command.validate_span hfits.data hfits.valid
  have hserves : ∀ w : Arming, w.channel = number → w.line = line → w.direction = t.direction →
      w.count = UInt32.ofNat t.length → w.address = address → w.Serves x command t h := by
    rintro w rfl rfl hdirection hcount rfl
    have hcount' : w.count.toNat = t.length := by
      rw [hcount, UInt32.toNat_ofNat_of_lt' (hfits.length_eq ▸ SectorSpan.byteLength_lt hvalid)]
    refine ⟨hpath, hchannel, hline, ⟨span, hdirection ▸ hfits.data, ?_⟩, hcount', ?_, haddress, capacity, hcapacity,
      hlength, Set.Ico_subset_Ico_right (by omega)⟩
    · rw [hfits.length_eq, SectorSpan.byteLength_eq_shift hvalid]
    · rw [hfits.length_eq]
      exact SectorSpan.byteLength_pos hvalid
  have hkept : ∀ c' : Controller, c'.stance = c.stance → c'.base = x.base ∧ c'.channel = x.channel := by
    intro c' hc
    have hwiring := Controller.wiring_of_footing (Controller.footing_of_stance hc)
    exact ⟨(h'.2.of_wiring hwiring).base_eq, (Controller.channel_of_wiring hwiring).trans h'.1.channel_eq⟩
  refine (Operation.ensures_sendCommand_window _ true _).mono ?_ ?_
  · rintro _ c' _ ⟨hc, u, rfl, hwindow⟩
    obtain ⟨hbase, hchannel'⟩ := hkept c' hc
    obtain ⟨w, rfl, hnumber, hl, hdirection, hcount, hat, htalk, htraffic⟩ :=
      arming_of_window (h'.2.line_eq.trans hline) hwindow
    rw [h'.2.base_eq] at htalk htraffic
    refine ⟨hbase, .start hchannel' ⟨h, w, [], by simp, by simpa using hunarmed,
      hserves w hnumber hl hdirection hcount hat, htalk, _, htraffic, .inl rfl⟩⟩
  · rintro cause c' _ ⟨hc, u, k, rfl, hk, rfl, hwindow⟩
    obtain ⟨hbase, hchannel'⟩ := hkept c' hc
    obtain ⟨w, rfl, hnumber, hl, hdirection, hcount, hat, htalk, htraffic⟩ :=
      arming_of_window (h'.2.line_eq.trans hline) hwindow
    rw [h'.2.base_eq] at htalk htraffic
    exact ⟨hbase, hchannel', .inr ⟨h, w, k, rfl, hunarmed, hserves w hnumber hl hdirection hcount hat, htalk,
      htraffic, hk, rfl⟩⟩

/-- A payload that goes through the channel. -/
theorem ensures_transferByChannel_armed {number : UInt8} {line : Line} (hfits : t.Fits command span)
    (hpath : x.path = .channel) (hchannel : x.channel = some number) (hline : x.line = some line)
    (h' : Underway x t c h) :
    Delivery.Ensures recorded (Operation.transferByChannel number (command.bytes x.drive x.recording) span t)
      (fun _ _ => Since x.channel (ArmedBy x command t))
      (fun cause _ => Stopped x command t cause) taken c h := by
  unfold Operation.transferByChannel
  have hfill : (Operation.fillBounce t).Only (Unarmed x.channel) := by
    refine (Operation.only_fillBounce t).mono ?_
    rintro _ ⟨_, rfl⟩
    trivial
  rw [Delivery.ensures_bind, Delivery.ensures_lift]
  refine (h'.1.routine hfill).mono fun _ h₁ hc₁ => ?_
  rw [Delivery.ensures_bind, Delivery.ensures_lift]
  refine Program.ensures_recorded.mpr fun address => ?_
  have hc₂ : Underway x t c (h₁ ++ [⟨.memory .bounceAddress, address⟩]) := ⟨hc₁.follows (by trivial), h'.2⟩
  rw [Program.ensures_done, Delivery.ensures_bind, Delivery.ensures_attempt]
  refine (ensures_sendCommand_armed hfits hpath hchannel hline (by simp) hc₂).mono ?_ fun _ _ _ => id
  have hcalm : Calm recorded fun c h => Since x.channel (ArmedBy x command t) c h ∧ c.base = x.base :=
    (steady_since.and fun hc hbase => (Controller.base_of_wiring hc).trans hbase).calm
  have hrest : Delivery.Keeps recorded (fun c h => Since x.channel (ArmedBy x command t) c h ∧ c.base = x.base)
      (fun _ c h => Since x.channel (ArmedBy x command t) c h ∧ c.base = x.base) (do
        let endedBy ← .attempt (Operation.awaitEnd Operation.transferTimeout MainStatus.canRead)
        .attempt Operation.awaitResult
        let result ← .attempt Operation.receiveStatus
        let moved ← Channel.moved number t.length
        Operation.emptyBounce t moved
        .attempt (Operation.conclude span t result moved endedBy) : Delivery Report) := by
    refine .bind (.attempt (hcalm.awaitEnd _ _)) fun endedBy => .bind (.attempt hcalm.awaitResult) fun _ => ?_
    refine .bind (.attempt hcalm.receiveStatus) fun result => ?_
    refine .bind (hcalm.moved (fun _ _ h => h.1.channel_eq.trans hchannel) t.length) fun moved => ?_
    exact .bind (hcalm.emptyBounce t moved) fun _ => .attempt (hcalm.conclude span t result moved endedBy)
  rintro _ c₃ h₃ ⟨hbase, hc₃⟩
  refine (hrest taken c₃ h₃ ⟨hc₃, hbase⟩).mono (fun _ _ _ _ => And.left) ?_
  rintro cause _ c₄ h₄ ⟨hc₄, hbase₄⟩
  exact ⟨hbase₄, hc₄.channel_eq, (hc₄.mono fun _ hu => Or.inr hu).restrained |> .inl⟩

theorem ensures_transfer_armed (hlined : x.path = .channel → x.line.isSome) (hfits : t.Fits command span)
    (h' : Underway x t c h) :
    Delivery.Ensures recorded (Operation.transfer (command.bytes x.drive x.recording) span t)
      (fun _ _ => Since x.channel (Restrained x command t)) (fun cause _ => Stopped x command t cause) taken c h := by
  unfold Operation.transfer
  rw [Delivery.ensures_bind, Delivery.ensures_getThe, Delivery.ensures_bind, Delivery.ensures_attempt]
  refine (steady_underway.enduring.agreeOnPath c h h').mono (fun _ c₁ h₁ hc₁ => ?_) fun _ _ _ => (·.stopped)
  split
  · rename_i number hpath hchannel
    have hpath' := h'.2.path hpath
    obtain ⟨line, hline⟩ := Option.isSome_iff_exists.mp (hlined hpath')
    have hchannel' : x.channel = some number := h'.1.channel_eq.symm.trans hchannel
    refine (ensures_transferByChannel_armed hfits hpath' hchannel' hline hc₁).mono ?_ fun _ _ _ _ => id
    exact fun _ _ _ _ hend => hend.mono fun _ => .inr
  · refine (steady_underway.enduring.transferByPort _ span t taken c₁ h₁ hc₁).mono ?_ fun _ _ _ _ => (·.stopped)
    exact fun _ _ _ _ hend => .start hend.1.channel_eq (.inl hend.roomy.unarmed)

theorem ensures_carryOut_armed (hlined : x.path = .channel → x.line.isSome) (hfits : t.Fits command span)
    (h' : Underway x t c h) :
    Delivery.Ensures recorded (Operation.carryOut command (command.bytes x.drive x.recording) (some t))
      (fun _ _ => Since x.channel (Restrained x command t)) (fun cause _ => Stopped x command t cause) taken c h :=
  steady_underway.enduring.ensures_carryOut_of_transfer hfits.data h' fun _ _ => ensures_transfer_armed hlined hfits

/-- A data command is refused before anything is armed; else it is carried out, and completed or given up. -/
theorem ensures_perform_underway {Q : SectorSpan → Report → List UInt8 → Controller → History Platform → Prop}
    {G : Failure → List UInt8 → Controller → History Platform → Prop}
    {R : Except Failure Report × List UInt8 → Controller → History Platform → Prop}
    (hrefused : ∀ cause h, (∀ e ∈ h, Unarmed c.channel e.call) → R (.error (.invalidParameters cause), []) c h)
    (hcarry : ∀ span, t.Fits command span → ∀ c₁ h₁, Underway c t c₁ h₁ → Delivery.Ensures recorded
      (Operation.carryOut command (command.bytes c.drive c.recording) (some t)) (Q span) G [] c₁ h₁)
    (hcomplete : ∀ span, t.Fits command span → ∀ early report taken c₁ h₁, Q span report taken c₁ h₁ →
      Operation.Ensures recorded (Operation.complete early report) (fun report' => R (.ok report', taken)) c₁ h₁)
    (hrecover : ∀ cause taken c₁ h₁, G cause taken c₁ h₁ →
      Operation.Ensures recorded (Operation.recover command cause) (fun _ => R (.error cause, taken)) c₁ h₁) :
    Operation.Ensures recorded (Operation.perform command (some t)) R c [] := by
  have hsize : ∀ (n : Nat) (h : History Platform), h = [] ++ [⟨.memory .bounceSize, n⟩] →
      (∀ e ∈ h, Unarmed c.channel e.call) ∧ ⟨.memory .bounceSize, n⟩ ∈ h := by
    rintro n _ rfl
    simp [Unarmed]
  unfold Operation.perform
  refine Operation.ensures_bind.mpr ((Operation.ensures_prepare_within ⟨trivial, hsize⟩ (by simp)).mono ?_)
  rintro (cause | bytes) c₁ h₁ ⟨rfl, hunarmed, hprepared⟩
  · exact hrefused cause h₁ hunarmed
  obtain ⟨⟨rfl, -, span, hfits⟩, hroom⟩ := hprepared bytes rfl
  obtain ⟨capacity, hlength, hcapacity⟩ := hroom t rfl
  have hunderway : Underway c₁ t c₁ h₁ := ⟨.start rfl ⟨hunarmed, capacity, hcapacity, hlength⟩, rfl, rfl, id⟩
  refine Operation.ensures_bind.mpr ((steady_underway.calm.undertake leavable_underway.disableDma
    (hcarry span hfits) hunderway).mono ?_)
  rintro ⟨early, outcome, delivered⟩ c₂ h₂ hc₂
  cases outcome with
  | ok report => exact Operation.ensures_bind.mpr (hcomplete span hfits early report delivered c₂ h₂ hc₂)
  | error cause => exact Operation.ensures_bind.mpr (hrecover cause delivered c₂ h₂ hc₂)

/-- A data command arms the channel for its transfer or not at all. -/
theorem ensures_perform_armed (hlined : c.path = .channel → c.line.isSome) :
    Operation.Ensures recorded (Operation.perform command (some t))
      (fun _ => Since c.channel (Restrained c command t)) c [] := by
  refine ensures_perform_underway (fun _ h hunarmed => .start rfl (.inl hunarmed))
    (fun span hfits c₁ h₁ hc₁ => ensures_carryOut_armed hlined hfits hc₁) ?_ ?_
  · intro span hfits early report taken c₁ h₁ hc₁
    exact (ensures_complete_since early report hc₁).mono fun _ _ _ => And.right
  · intro cause taken c₁ h₁ hc₁
    exact ensures_recover_since command cause hc₁.restrained

end Diskette
