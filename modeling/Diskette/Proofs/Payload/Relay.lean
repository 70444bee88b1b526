import Diskette.Proofs.Arming.Commands
import Diskette.Proofs.Payload.Progress

/-!
The payload of a command on its way. Whichever path it takes, so many of its bytes have gone over when the command
ends, and as many have reached the caller.
-/
namespace Diskette

variable {x c c' : Controller} {command : Command} {span : SectorSpan} {t : Transfer} {h : History Platform}
  {cause : Failure} {taken : List UInt8} {n : Nat} {status : List UInt8} {bytes : List UInt8} {number : UInt8}

/-- Neither moves a byte, nor lets a channel do so. -/
def Platform.Call.Still : Platform.Call → Prop
  | .suppress | .memory .bounceAddress => True
  | .channel _ call => call ≠ .unmask
  | _ => False

/-- A channel is unmasked in this window, once, and only set up before. -/
def Unmasked (number : UInt8) (window : History Platform) : Prop :=
  ∃ still later, window = still ++ ⟨.channel number .unmask, ()⟩ :: later ∧ (∀ e ∈ still, e.call.Still) ∧
    ∀ e ∈ later, e.call ≠ .channel number .unmask

/-- How a payload has gone over, so many bytes of it: what came before the window of its command, that window, and what
has come since. -/
inductive Relayed (x : Controller) (t : Transfer) (n : Nat) (status : List UInt8) :
    (lead window body : History Platform) → (payload : List UInt8) → Prop
  | fetched {lead window talk : History Platform} {number : UInt8} {left : UInt32} {ranOut : Bool}
      {got : Vector UInt8 n} (hpath : x.path = .channel) (hchannel : x.channel = some number)
      (hdirection : t.direction = .toMemory) (hunmasked : Unmasked number window)
      (hstatus : Traffic x.base talk status []) (hcount : n = Channel.count t.length left ranOut) :
      Relayed x t n status lead window (talk ++ Channel.counting number left ranOut ++ [⟨.memory (.fetch n), got⟩])
        got.toList
  | stored {lead window talk : History Platform} {number : UInt8} {address left : UInt32} {ranOut : Bool}
      {source : List UInt8} (hpath : x.path = .channel) (hchannel : x.channel = some number)
      (hsource : t.buffer = .source source) (hunmasked : Unmasked number window)
      (hstatus : Traffic x.base talk status []) (hcount : n = Channel.count t.length left ranOut) :
      Relayed x t n status
        (lead ++ [⟨.memory (.store (source.take t.length)), ()⟩, ⟨.memory .bounceAddress, address⟩]) window
        (talk ++ Channel.counting number left ranOut) (source.take n)
  | read {lead window body : History Platform} {payload : List UInt8} (hdirection : t.direction = .toMemory)
      (hwindow : ∀ e ∈ window, Unarmed none e.call) (hbody : Traffic x.base body (payload ++ status) [])
      (hlength : payload.length = n) (hstalled : n < t.length → status = []) :
      Relayed x t n status lead window body payload
  | written {lead window body : History Platform} {source : List UInt8} (hsource : t.buffer = .source source)
      (hwindow : ∀ e ∈ window, Unarmed none e.call) (hbody : Traffic x.base body status (source.take n))
      (hstalled : n < t.length → status = []) : Relayed x t n status lead window body (source.take n)

/-- A command has been sent, and so much of its payload has gone over. -/
def Passed (x : Controller) (command : Command) (t : Transfer) (n : Nat) (status taken : List UInt8)
    (h : History Platform) : Prop :=
  ∃ lead window body payload, h = lead ++ window ++ body ∧ Roomy x t lead ∧ t.length ≤ t.buffer.bytes.length ∧
    (∀ e ∈ body, Unarmed x.channel e.call) ∧ Traffic x.base window [] (command.bytes x.drive x.recording) ∧
    Relayed x t n status lead window body payload ∧ t.buffer.receive taken = t.buffer.receive payload

/-- That has just been told. -/
def PassedTold (x : Controller) (command : Command) (t : Transfer) (n : Nat) (status taken : List UInt8)
    (event : Log.Event) (h : History Platform) : Prop :=
  ∃ u, h = u ++ [⟨.log x.base event, ()⟩] ∧ Passed x command t n status taken u

/-- All of a payload has gone over. -/
structure Whole (x : Controller) (command : Command) (t : Transfer) (span : SectorSpan) (report : Report)
    (taken : List UInt8) (c : Controller) (h : History Platform) : Prop where
  transferred : report.transferred = t.length
  taken_le : taken.length ≤ t.length
  passed : Since x.channel
    (PassedTold x command t t.length report.result taken (.moved t.length t.direction span)) c h

/-- A payload has not gone over, or not all of it. -/
structure Cut (x : Controller) (command : Command) (t : Transfer) (cause : Failure) (taken : List UInt8)
    (c : Controller) (h : History Platform) : Prop where
  base_eq : c.base = x.base
  channel_eq : c.channel = x.channel
  taken_le : taken.length ≤ t.length
  passed : ∀ expected actual, cause = .shortTransfer expected actual →
    expected = t.length ∧ actual < t.length ∧ ∃ status, Passed x command t actual status taken h

theorem Cut.of_lapse (hbase : c.base = x.base) (hchannel : c.channel = x.channel) (htaken : taken.length ≤ t.length)
    (hcause : cause.Lapse ∧ c'.setting = c.setting) : Cut x command t cause taken c' h := by
  obtain ⟨hlapse, hsetting⟩ := hcause
  have hbase' : c'.setting.base = c.setting.base := by rw [hsetting]
  have hchannel' : c'.setting.channel = c.setting.channel := by rw [hsetting]
  refine ⟨hbase'.trans hbase, hchannel'.trans hchannel, htaken, ?_⟩
  rintro expected actual rfl
  exact hlapse.elim

theorem Operation.CommandWindow.unmasked {interrupting : Bool} {direction : Direction} {address : UInt32}
    {length k : Nat} {expectation : Expectation}
    (h' : CommandWindow c interrupting (some ⟨number, direction, address, length⟩) expectation bytes k h) :
    Unmasked number h := by
  obtain ⟨wasEnabled, loading, expecting, talk, rfl, hload, hexpect, htalk, -⟩ := h'
  obtain ⟨ranOut, rfl⟩ := execution_setUpChannel hload
  refine ⟨[⟨.suppress, wasEnabled⟩, ⟨.channel number .mask, ()⟩,
    ⟨.channel number (.setMode (.oneShot direction)), ()⟩, ⟨.channel number (.loadCount (UInt32.ofNat length)), ()⟩,
    ⟨.channel number (.loadAddress address), ()⟩],
    ⟨.channel number .terminalCount, ranOut⟩ :: (expecting ++ talk ++ [⟨.resume wasEnabled, ()⟩]), by simp, ?_, ?_⟩
  · simp [Platform.Call.Still]
  · intro e he
    simp only [List.mem_cons, List.mem_append, List.not_mem_nil, or_false] at he
    rcases he with rfl | (hexpecting | htalks) | rfl
    · simp
    · obtain ⟨call, hcall, -⟩ := (only_expectEnd c interrupting).execution hexpect e hexpecting
      simp [hcall]
    · intro hcall
      have hsends := htalk e htalks
      rw [hcall] at hsends
      exact hsends
    · simp

theorem Operation.CommandWindow.unarmed {interrupting : Bool} {k : Nat} {expectation : Expectation}
    (h' : CommandWindow c interrupting none expectation bytes k h) : ∀ e ∈ h, Unarmed none e.call := by
  obtain ⟨wasEnabled, loading, expecting, talk, rfl, hload, hexpect, htalk, -⟩ := h'
  obtain ⟨rfl, -⟩ := Execution.of_done hload
  intro e he
  simp only [List.nil_append, List.cons_append, List.mem_cons, List.mem_append, List.not_mem_nil, or_false] at he
  rcases he with rfl | (hexpecting | htalks) | rfl
  · trivial
  · obtain ⟨call, hcall, -⟩ := (only_expectEnd c interrupting).execution hexpect e hexpecting
    rw [hcall]
    trivial
  · exact unarmed_of_talks (Fifo.talks_of_sends (htalk e htalks))
  · trivial

/-- What has gone over is what is told and reported. -/
theorem ensures_conclude_passed {result : ResultBytes (.exactly maxResult)} (endedBy : EndSign)
    (hbase : c.base = x.base) (hchannel : c.channel = x.channel) (hn : n ≤ t.length) (htaken : taken.length ≤ t.length)
    (hpassed : Passed x command t n result.toList taken h) :
    Attempt.Ensures recorded (Operation.conclude span t result n endedBy)
      (fun report => Whole x command t span report taken) (fun cause => Cut x command t cause taken) c h := by
  have hcheck : Attempt.Ensures recorded (Operation.checkStatus .transfer result) (fun _ c' h' => c' = c ∧ h' = h)
      (fun _ _ _ => True) c h := by
    unfold Operation.checkStatus
    split
    · trivial
    · exact ⟨rfl, rfl⟩
  unfold Operation.conclude
  rw [Attempt.ensures_bind]
  refine (AttemptHolds.lapses (fun _ => holds_checkStatus _ _) hcheck).mono ?_
    fun _ _ _ => .of_lapse hbase hchannel htaken
  rintro _ _ _ ⟨rfl, rfl⟩
  by_cases hshort : n < t.length
  · rw [if_pos hshort]
    refine ⟨hbase, hchannel, htaken, ?_⟩
    rintro expected actual ⟨⟩
    exact ⟨rfl, hshort, _, hpassed⟩
  · obtain rfl : n = t.length := by omega
    rw [if_neg hshort, Attempt.ensures_bind, Attempt.ensures_operation, Operation.ensures_log]
    refine Program.ensures_recorded.mpr fun _ => ?_
    exact ⟨rfl, htaken, .start hchannel ⟨_, by rw [hbase], hpassed⟩⟩

/-- What is put into the bounce buffer before a command. -/
def Transfer.filling (t : Transfer) : History Platform :=
  match t.buffer with
  | .source source => [⟨.memory (.store (source.take t.length)), ()⟩]
  | .destination _ => []

theorem ensures_fillBounce_recorded :
    (Operation.fillBounce t).Ensures recorded (fun _ h' => h' = h ++ t.filling) h := by
  unfold Operation.fillBounce Transfer.filling
  cases t.buffer with
  | source => exact Program.ensures_recorded.mpr fun _ => rfl
  | destination => exact (List.append_nil h).symm

theorem Transfer.filling_unarmed {channel : Option UInt8} : ∀ e ∈ t.filling, Unarmed channel e.call := by
  unfold filling
  split
  · simp [Unarmed]
  · simp

/-- The bytes that have moved are handed over as they lie in the bounce buffer. -/
theorem ensures_emptyBounce_recorded (n : Nat) :
    Delivery.Ensures recorded (Operation.emptyBounce t n) (fun _ taken' c' h' => c' = c ∧ match t.buffer with
      | .source _ => taken' = taken ∧ h' = h
      | .destination _ => ∃ got : Vector UInt8 n, taken' = got.toList ∧ h' = h ++ [⟨.memory (.fetch n), got⟩])
      (fun _ _ _ _ => False) taken c h := by
  unfold Operation.emptyBounce
  cases t.buffer with
  | source => exact ⟨rfl, rfl, rfl⟩
  | destination =>
    rw [Delivery.ensures_bind, Delivery.ensures_lift]
    exact Program.ensures_recorded.mpr fun got => ⟨rfl, got, rfl, rfl⟩

/-- The end of a transfer through the channel, once it has been asked how much has moved. -/
theorem ensures_handOver_passed {lead window talk : History Platform} {address left : UInt32} {ranOut : Bool}
    {result : ResultBytes (.exactly maxResult)} (endedBy : EndSign) (hfits : t.Fits command span)
    (hpath : x.path = .channel) (hnumber : x.channel = some number) (hbase : c.base = x.base)
    (hchannel : c.channel = x.channel)
    (hroom : Roomy x t (lead ++ t.filling ++ [⟨.memory .bounceAddress, address⟩]))
    (hsent : Traffic x.base window [] (command.bytes x.drive x.recording)) (hunmasked : Unmasked number window)
    (hstatus : Traffic x.base talk result.toList []) (htalk : ∀ e ∈ talk, Unarmed x.channel e.call)
    (hcount : n = Channel.count t.length left ranOut) :
    Delivery.Ensures recorded (do
        Operation.emptyBounce t n
        .attempt (Operation.conclude span t result n endedBy)) (Whole x command t span) (Cut x command t) [] c
      (lead ++ t.filling ++ [⟨.memory .bounceAddress, address⟩] ++ window ++ talk ++
        Channel.counting number left ranOut) := by
  have hn : n ≤ t.length := hcount ▸ Channel.count_le ..
  have hcounted : ∀ e ∈ talk ++ Channel.counting number left ranOut, Unarmed x.channel e.call := by
    intro e he
    rcases List.mem_append.mp he with hold | hcounting
    · exact htalk e hold
    · simp only [Channel.counting, List.mem_cons, List.not_mem_nil, or_false] at hcounting
      rcases hcounting with rfl | rfl <;> exact ⟨hnumber, id⟩
  rw [Delivery.ensures_bind]
  refine (ensures_emptyBounce_recorded n).mono ?_ fun _ _ _ _ => False.elim
  rintro _ taken c₁ h₁ ⟨rfl, hemptied⟩
  rw [Delivery.ensures_attempt]
  cases hbuffer : t.buffer with
  | destination _ =>
    rw [hbuffer] at hemptied
    obtain ⟨got, rfl, rfl⟩ := hemptied
    have hdirection : t.direction = .toMemory := by simp [Transfer.direction, hbuffer, PayloadBuffer.direction]
    refine ensures_conclude_passed endedBy hbase hchannel hn (by simpa using hn) ⟨_, window, _, _, by simp, hroom,
      hfits.length_le, ?_, hsent, .fetched hpath hnumber hdirection hunmasked hstatus hcount, rfl⟩
    intro e he
    rcases List.mem_append.mp he with hold | hfetch
    · exact hcounted e hold
    · obtain rfl := List.mem_singleton.mp hfetch
      trivial
  | source source =>
    rw [hbuffer] at hemptied
    obtain ⟨rfl, rfl⟩ := hemptied
    have hfilled : lead ++ t.filling ++ [⟨.memory .bounceAddress, address⟩] =
        lead ++ [⟨.memory (.store (source.take t.length)), ()⟩, ⟨.memory .bounceAddress, address⟩] := by
      simp [Transfer.filling, hbuffer]
    exact ensures_conclude_passed endedBy hbase hchannel hn (Nat.zero_le _) ⟨_, window, _, _, by simp [hfilled],
      hfilled ▸ hroom, hfits.length_le, hcounted, hsent, .stored hpath hnumber hbuffer hunmasked hstatus hcount,
      by rw [hbuffer]; rfl⟩

theorem ensures_transferByChannel_passed (hfits : t.Fits command span) (hpath : x.path = .channel)
    (hnumber : x.channel = some number) (h' : Underway x t c h) :
    Delivery.Ensures recorded (Operation.transferByChannel number (command.bytes x.drive x.recording) span t)
      (Whole x command t span) (Cut x command t) [] c h := by
  unfold Operation.transferByChannel
  rw [Delivery.ensures_bind, Delivery.ensures_lift]
  refine ensures_fillBounce_recorded.mono ?_
  rintro _ _ rfl
  rw [Delivery.ensures_bind, Delivery.ensures_lift]
  refine Program.ensures_recorded.mpr fun address => ?_
  have hroom : Roomy x t (h ++ t.filling ++ [⟨.memory .bounceAddress, address⟩]) :=
    (h'.roomy.append t.filling_unarmed).append (by simp [Unarmed])
  rw [Program.ensures_done, Delivery.ensures_bind, Delivery.ensures_attempt]
  refine (AttemptHolds.lapses (fun _ => holds_sendCommand _ _ _) (ensures_sendCommand_advanced _ true _ h'.2.base_eq
    h'.1.channel_eq)).mono ?_ fun _ _ _ => .of_lapse h'.2.base_eq h'.1.channel_eq (Nat.zero_le _)
  rintro _ c₁ h₁ ⟨window, hwindow, hsent, hc₁⟩
  rw [Delivery.ensures_bind, Delivery.ensures_attempt]
  refine (AttemptHolds.lapses (fun _ => holds_awaitEnd _ _) (ensures_awaitEnd_advanced _ _ hc₁)).mono ?_
    fun _ _ _ => .of_lapse hc₁.base_eq hc₁.channel_eq (Nat.zero_le _)
  intro endedBy c₂ h₂ hc₂
  rw [Delivery.ensures_bind, Delivery.ensures_attempt]
  refine (AttemptHolds.lapses (fun _ => holds_awaitResult) (ensures_awaitResult_advanced hc₂)).mono ?_
    fun _ _ _ => .of_lapse hc₂.base_eq hc₂.channel_eq (Nat.zero_le _)
  intro _ c₃ h₃ hc₃
  rw [Delivery.ensures_bind, Delivery.ensures_attempt]
  refine (AttemptHolds.lapses (fun _ => holds_receiveStatus) (ensures_receiveStatus_advanced hc₃)).mono ?_
    fun _ _ _ => .of_lapse hc₃.base_eq hc₃.channel_eq (Nat.zero_le _)
  rintro result c₄ _ ⟨hbase, hchannel, talk, rfl, hstatus, htalk⟩
  rw [Delivery.ensures_bind, Delivery.ensures_lift]
  refine (Channel.ensures_moved number t.length).mono ?_
  rintro n _ ⟨left, ranOut, rfl, hcount⟩
  exact ensures_handOver_passed endedBy hfits hpath hnumber hbase hchannel hroom hsent hwindow.unmasked hstatus htalk
    hcount

/-- The bytes of a transfer that go over the port, up to the first stall. -/
theorem ensures_stepSectors_advanced (hfits : t.Fits command span) {window lead : History Platform}
    (hwindow : ∀ e ∈ window, Unarmed none e.call) (h' : Advanced x (lead ++ window) [] [] c h) :
    Delivery.Ensures recorded (Operation.stepSectors c.base span t.buffer) (fun n taken c' h' => c' = c ∧
      n ≤ t.length ∧ taken.length ≤ n ∧ ∃ read written, Advanced x (lead ++ window) read written c h' ∧
        ∀ body status, Traffic x.base body (read ++ status) written → (n < t.length → status = []) →
          ∃ payload, Relayed x t n status lead window body payload ∧ t.buffer.receive taken = t.buffer.receive payload)
      (fun _ _ _ _ => False) [] c h := by
  have hlength : t.length = span.count.toNat * span.sectorBytes :=
    hfits.length_eq.trans (SectorSpan.byteLength_eq (Command.validate_span hfits.data hfits.valid))
  rw [h'.base_eq]
  unfold Operation.stepSectors
  cases hbuffer : t.buffer with
  | destination bs =>
    have hdirection : t.direction = .toMemory := by simp [Transfer.direction, hbuffer, PayloadBuffer.direction]
    have honly : (Operation.readSectors x.base span.sectorBytes span.count.toNat).Only (Unarmed x.channel) :=
      (Operation.only_readSectors _ _).mono fun _ => unarmed_of_talks
    rw [Delivery.ensures_bind, Delivery.ensures_lift]
    refine (h'.routine honly).mono ?_
    intro bytes h₁ hread
    obtain ⟨u, hu, hadvanced⟩ := hread
    obtain ⟨htraffic, hmost⟩ := Operation.traffic_readSectors hu
    exact ⟨rfl, hlength ▸ hmost, Nat.le_refl _, bytes, [], hadvanced _ _ htraffic,
      fun body status hbody hstalled => ⟨bytes, .read hdirection hwindow hbody rfl hstalled, rfl⟩⟩
  | source source =>
    have honly : (Operation.writeSectors x.base span.sectorBytes span.count.toNat source).Only (Unarmed x.channel) :=
      (Operation.only_writeSectors _ _ _).mono fun _ => unarmed_of_talks
    rw [Delivery.ensures_lift]
    refine (h'.routine honly).mono ?_
    intro total h₁ hwrite
    obtain ⟨u, hu, hadvanced⟩ := hwrite
    obtain ⟨htraffic, hmost⟩ := Operation.traffic_writeSectors hu
    exact ⟨rfl, hlength ▸ hmost, Nat.zero_le _, [], _, hadvanced _ _ htraffic,
      fun body status hbody hstalled => ⟨_, .written hbuffer hwindow hbody hstalled, rfl⟩⟩

theorem ensures_transferByPort_passed (hfits : t.Fits command span) (h' : Underway x t c h) :
    Delivery.Ensures recorded (Operation.transferByPort (command.bytes x.drive x.recording) span t)
      (Whole x command t span) (Cut x command t) [] c h := by
  unfold Operation.transferByPort
  rw [Delivery.ensures_bind, Delivery.ensures_attempt]
  refine (AttemptHolds.lapses (fun _ => holds_sendCommand _ _ _) (ensures_sendCommand_advanced _ false _ h'.2.base_eq
    h'.1.channel_eq)).mono ?_ fun _ _ _ => .of_lapse h'.2.base_eq h'.1.channel_eq (Nat.zero_le _)
  intro _ c₁ h₁ hc
  obtain ⟨window, hwindow, hsent, hc₁⟩ := hc
  rw [Delivery.ensures_bind, Delivery.ensures_operation, Operation.ensures_setPhase, Delivery.ensures_bind,
    Delivery.ensures_getThe, Delivery.ensures_bind]
  have hc₂ : Advanced x (h ++ window) [] [] { c₁ with phase := .awaitingCompletion } h₁ := hc₁.of_footing rfl
  refine (ensures_stepSectors_advanced hfits hwindow.unarmed hc₂).mono ?_ fun _ _ _ _ => False.elim
  intro n taken c₃ h₃ hstepped
  obtain ⟨rfl, hn, htaken, read, written, hc₃, hrelayed⟩ := hstepped
  have hpassed : ∀ body status, Traffic x.base body (read ++ status) written → (n < t.length → status = []) →
      (∀ e ∈ body, Unarmed x.channel e.call) → Passed x command t n status taken (h ++ window ++ body) := by
    intro body status hbody hstalled hunarmed
    obtain ⟨payload, hpayload, htaken⟩ := hrelayed body status hbody hstalled
    exact ⟨h, window, body, payload, rfl, h'.roomy, hfits.length_le, hunarmed, hsent, hpayload, htaken⟩
  split
  · rename_i hshort
    refine ⟨hc₃.base_eq, hc₃.channel_eq, htaken.trans hn, ?_⟩
    rintro expected actual ⟨⟩
    obtain ⟨-, -, body, rfl, hbody, hunarmed⟩ := hc₃
    exact ⟨rfl, by omega, [], hpassed body [] (by simpa using hbody) (fun _ => rfl) hunarmed⟩
  · rename_i hwhole
    rw [Delivery.ensures_bind, Delivery.ensures_attempt]
    refine (AttemptHolds.lapses (fun _ => holds_receiveStatus) (ensures_receiveStatus_advanced hc₃)).mono ?_
      fun _ _ _ => .of_lapse hc₃.base_eq hc₃.channel_eq (htaken.trans hn)
    intro result c₄ h₄ hc₄
    obtain ⟨hbase, hchannel, body, rfl, hbody, hunarmed⟩ := hc₄
    rw [Delivery.ensures_attempt]
    exact ensures_conclude_passed .polling hbase hchannel hn (htaken.trans hn)
      (hpassed body _ hbody (by omega) hunarmed)

theorem ensures_transfer_passed (hfits : t.Fits command span) (h' : Underway x t c h) :
    Delivery.Ensures recorded (Operation.transfer (command.bytes x.drive x.recording) span t)
      (Whole x command t span) (Cut x command t) [] c h := by
  unfold Operation.transfer
  rw [Delivery.ensures_bind, Delivery.ensures_getThe, Delivery.ensures_bind, Delivery.ensures_attempt]
  have hagree : Attempt.Ensures recorded Operation.agreeOnPath (fun _ => Underway x t) (fun _ _ _ => True) c h :=
    (steady_underway.enduring.agreeOnPath c h h').mono (fun _ _ _ => id) fun _ _ _ _ => trivial
  refine (AttemptHolds.lapses (fun _ => holds_agreeOnPath) hagree).mono ?_
    fun _ _ _ => .of_lapse h'.2.base_eq h'.1.channel_eq (Nat.zero_le _)
  intro _ c₁ h₁ hc₁
  split
  · rename_i number hpath hchannel
    exact ensures_transferByChannel_passed hfits (h'.2.path hpath) (h'.1.channel_eq.symm.trans hchannel) hc₁
  · exact ensures_transferByPort_passed hfits hc₁

theorem ensures_carryOut_passed (hfits : t.Fits command span) (h' : Underway x t c h) :
    Delivery.Ensures recorded (Operation.carryOut command (command.bytes x.drive x.recording) (some t))
      (Whole x command t span) (Cut x command t) [] c h :=
  steady_underway.enduring.ensures_carryOut_of_transfer hfits.data h' fun _ _ => ensures_transfer_passed hfits

/-- What comes of a payload: the bytes that have reached the caller, and what is told. -/
structure Outcome (x : Controller) (command : Command) (t : Transfer) (outcome : Except Failure Report)
    (taken : List UInt8) (h : History Platform) : Prop where
  taken_le : taken.length ≤ t.length
  whole : ∀ report, outcome = .ok report → report.transferred = t.length ∧ ∃ span,
    command.transfer? = some (span, t.direction) ∧ ∃ u v, h = u ++ v ∧
      PassedTold x command t t.length report.result taken (.moved t.length t.direction span) u ∧
      ∀ e ∈ v, Unarmed x.channel e.call
  cut : ∀ expected actual, outcome = .error (.shortTransfer expected actual) →
    expected = t.length ∧ actual < t.length ∧ ∃ status u v, h = u ++ v ∧
      PassedTold x command t actual status taken (.failed command (.shortTransfer expected actual)) u ∧
      ∀ e ∈ v, Unarmed x.channel e.call

theorem Cut.outcome (h' : Cut x command t cause taken c h) :
    Operation.Ensures recorded (Operation.recover command cause)
      (fun _ _ => Outcome x command t (.error cause) taken) c h := by
  let P : History Platform → Prop := fun u => ∀ expected actual, cause = .shortTransfer expected actual →
    expected = t.length ∧ actual < t.length ∧
      ∃ status, PassedTold x command t actual status taken (.failed command cause) u
  have hP : P (h ++ [⟨.log c.base (.failed command cause), ()⟩]) := by
    intro expected actual hcause
    obtain ⟨hexpected, hactual, status, hpassed⟩ := h'.passed expected actual hcause
    exact ⟨hexpected, hactual, status, h, by rw [h'.base_eq], hpassed⟩
  refine (ensures_recover_since command cause (.start h'.channel_eq hP)).mono ?_
  intro _ c' h'' hsince
  obtain ⟨-, u, v, rfl, hu, hv⟩ := hsince
  refine ⟨h'.taken_le, fun _ => nofun, ?_⟩
  rintro expected actual ⟨⟩
  obtain ⟨hexpected, hactual, status, htold⟩ := hu expected actual rfl
  exact ⟨hexpected, hactual, status, u, v, rfl, htold, hv⟩

theorem Whole.outcome {report : Report} (early : Option Failure) (hdata : command.transfer? = some (span, t.direction))
    (h' : Whole x command t span report taken c h) :
    Operation.Ensures recorded (Operation.complete early report)
      (fun report' _ => Outcome x command t (.ok report') taken) c h := by
  refine (ensures_complete_since early report h'.passed).mono ?_
  intro report' c' h'' hend
  obtain ⟨⟨notice, rfl⟩, -, u, v, rfl, hu, hv⟩ := hend
  refine ⟨h'.taken_le, ?_, fun _ _ => nofun⟩
  rintro _ ⟨⟩
  exact ⟨h'.transferred, span, hdata, u, v, rfl, hu, hv⟩

/-- Whatever comes of a data command, its payload is what has gone over. -/
theorem ensures_perform_passed :
    Operation.Ensures recorded (Operation.perform command (some t)) (fun r _ => Outcome c command t r.1 r.2) c [] := by
  refine ensures_perform_underway (fun _ _ _ => ⟨Nat.zero_le _, fun _ => nofun, fun _ _ => nofun⟩)
    (fun span hfits c₁ h₁ hc₁ => ensures_carryOut_passed hfits hc₁) ?_ ?_
  · intro span hfits early report taken c₁ h₁ hc₁
    exact hc₁.outcome early hfits.data
  · intro cause taken c₁ h₁ hc₁
    exact hc₁.outcome

end Diskette
