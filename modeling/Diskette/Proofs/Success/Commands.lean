import Diskette.Proofs.Payload.Progress
import Diskette.Proofs.Success.Results

/-!
Commands that go well. Each of them takes in its result once it is over, and reports it with the status that it
leaves.
-/
namespace Diskette

variable {x c c' : Controller} {t u : History Platform} {command : Command} {bytes : List UInt8} {sign : EndSign}
  {span : SectorSpan} {transfer : Transfer} {taken : List UInt8}

theorem ensures_sendCommand_armedFor (interrupting : Bool) (load : Option Operation.ChannelLoad) (h : Unaltered x c)
    (hinterrupting : c.path = .channel → interrupting = true) :
    Attempt.Ensures recorded (Operation.sendCommand bytes interrupting load) (fun _ c' t' => Unaltered x c' ∧
      (c'.path = .channel → ∀ l ∈ c'.line, ArmedFor x.base bytes l c'.expectation t')) (fun _ _ _ => True) c t := by
  refine (Operation.ensures_sendCommand_window bytes interrupting load).mono ?_ fun _ _ _ _ => trivial
  rintro _ c' _ ⟨hstance, u, rfl, hwindow⟩
  refine ⟨h.of_stance hstance, fun hpath l hl => ?_⟩
  have hpath' : c'.stance.path = c.stance.path := by rw [hstance]
  have hline' : c'.stance.line = c.stance.line := by rw [hstance]
  obtain rfl := hinterrupting (hpath'.symm.trans hpath)
  rw [← h.base_eq]
  exact hwindow.armedFor (hline'.symm.trans hl)

theorem ensures_awaitEnd_noticed (ms : Nat) (settled : MainStatus → Bool) (h : Unaltered x c)
    (hkind : command.kind = .seek ∨ command.kind = .transfer) (harmed : c.path = .channel → ∀ l ∈ c.line,
      ArmedFor x.base (command.bytes x.drive x.recording) l c.expectation t) :
    Attempt.Ensures recorded (Operation.awaitEnd ms settled)
      (fun sign c' t' => Unaltered x c' ∧ Noticed x command sign t') (fun _ _ _ => True) c t := by
  rw [← h.base_eq] at harmed
  refine (Operation.ensures_awaitEnd_fired ms settled harmed).mono ?_ fun _ _ _ => id
  rintro sign c' t' ⟨hstance, hfired⟩
  refine ⟨h.of_stance hstance, fun hsign => ?_⟩
  obtain ⟨hpath, l, hl, hline⟩ := hfired hsign
  rw [h.base_eq] at hline
  exact ⟨hkind, h.path hpath, l, h.line_eq ▸ hl, hline⟩

/-- The result of a command that is under way. -/
theorem ensures_takeResult_ending (n : ResultLength) (h : Unaltered x c) (hnoticed : Noticed x command sign t) :
    Attempt.Ensures recorded (Operation.takeResult n)
      (fun result c' t' => Unaltered x c' ∧ Ending x command result.toList sign t') (fun _ _ _ => True) c t := by
  have hkept := (conversing_noticed x command sign).takeResult n c t ⟨h, hnoticed⟩
  refine (Attempt.Ensures.and (ensures_takeResult_told n) hkept).mono ?_ fun _ _ _ _ => trivial
  rintro result c' t' ⟨⟨-, hrest, htold⟩, hc', hnoticed'⟩
  rw [h.base_eq] at hrest htold
  exact ⟨hc', htold, hrest, hnoticed'⟩

theorem ensures_senseHead_attained (hkind : command.kind = .seek) (h : Unaltered x c)
    (hnoticed : Noticed x command sign t) : Attempt.Ensures recorded (do
      let result ← Operation.senseHead
      return ({
        result := result.toList
        status := (← getThe Controller).status
        transferred := 0
        endedBy := sign } : Report)) (fun report => Attained x command report) (fun _ _ _ => True) c t := by
  have hconversing := conversing_noticed x command sign
  simp only [Operation.senseHead, Attempt.ensures_bind, Attempt.ensures_getThe, Attempt.ensures_of,
    Attempt.ensures_modify]
  have hsense := hconversing.transact .senseInterrupt (.exactly 2) ⟨h, hnoticed⟩
  refine (Fifo.ensures_transact_told.and hsense).mono ?_
  rintro (_ | result) t' ⟨htold, hc, hnoticed'⟩
  · trivial
  obtain ⟨hrest, hsuffix⟩ := htold result rfl
  rw [h.base_eq] at hrest hsuffix
  have hst0 : result.toList.getD 0 0 = result.byte 0 := result.getD_toList 0 0
  have hcylinder : ∀ d, result.toList.getD 1 d = result.byte 1 := result.getD_toList 1
  dsimp only
  split
  · trivial
  rename_i hgood
  have hcode : InterruptCode.ofSt0 (result.byte 0) = .normal :=
    normal_of_not_failure (Bool.eq_false_iff.mpr hgood) (by decide)
  rw [Attempt.ensures_pure, Attempt.ensures_pure]
  refine ⟨⟨hsuffix, hrest, hnoticed'⟩, ?_, ?_, rfl, ?_, ?_, Command.succeeds_of_seek hkind hcode⟩
  · rw [Command.reportedLength, hkind]
    exact result.fewest_le
  · rw [Command.reportedLength, hkind]
    exact result.le_most
  · rw [Command.statusAfter_of_seek hkind, hst0, ← h.status]
  · rw [Command.cylinderAfter_of_seek hkind, hcylinder]

theorem ensures_runSeek_attained (hkind : command.kind = .seek) (drive : Drive) (h : Unaltered x c) :
    Attempt.Ensures recorded (Operation.runSeek command (command.bytes x.drive x.recording) drive)
      (fun report => Attained x command report) (fun _ _ _ => True) c t := by
  unfold Operation.runSeek
  rw [Attempt.ensures_bind, Attempt.ensures_getThe, Attempt.ensures_bind]
  refine (ensures_sendCommand_armedFor _ none h (by simp)).mono ?_ fun _ _ _ => id
  rintro _ c₁ t₁ ⟨h₁, harmed⟩
  rw [Attempt.ensures_bind]
  refine (ensures_awaitEnd_noticed _ _ h₁ (.inl hkind) harmed).mono ?_ fun _ _ _ => id
  rintro sign c₂ t₂ hnoticed
  rw [Attempt.ensures_bind]
  refine ((conversing_noticed x command sign).takeResult _ c₂ t₂ hnoticed).mono ?_ fun _ _ _ _ => trivial
  exact fun _ c₃ t₃ ⟨h₃, hnoticed'⟩ => ensures_senseHead_attained hkind h₃ hnoticed'

/-- What a full result leaves in a controller that has taken it in. -/
structure Absorbed (x : Controller) (command : Command) (result : ResultBytes (.exactly maxResult)) (c : Controller) :
    Prop where
  status : c.status = command.statusAfter result.toList x.status
  cylinder : c.cylinder = command.cylinderAfter result.toList x.cylinder
  st0 : c.status.st0 = result.byte 0
  st1 : c.status.st1 = result.byte 1
  st2 : c.status.st2 = result.byte 2

theorem ensures_absorbStatus_absorbed (hfull : command.resultLength = .exactly maxResult)
    (result : ResultBytes (.exactly maxResult)) (h : Unaltered x c) :
    Operation.Ensures recorded (Operation.absorbStatus result)
      (fun _ c' t' => Absorbed x command result c' ∧ t' = t) c t := by
  have hst0 : result.toList.getD 0 0 = result.byte 0 := result.getD_toList 0 0
  have hst1 : result.toList.getD 1 0 = result.byte 1 := result.getD_toList 1 0
  have hst2 : result.toList.getD 2 0 = result.byte 2 := result.getD_toList 2 0
  have hstatus : command.statusAfter result.toList x.status =
      { c.status with st0 := result.byte 0, st1 := result.byte 1, st2 := result.byte 2 } := by
    cases command with
    | readId | read | write => rw [Command.statusAfter, hst0, hst1, hst2, h.status]
    | _ => simp [Command.resultLength, maxResult] at hfull
  have hcylinder : command.cylinderAfter result.toList x.cylinder = result.byte 3 := by
    cases command with
    | readId | read | write => exact result.getD_toList 3 _
    | _ => simp [Command.resultLength, maxResult] at hfull
  exact ⟨⟨hstatus.symm, hcylinder.symm, rfl, rfl, rfl⟩, rfl⟩

theorem ensures_absorb_attained (hkind : command.kind = .immediate) (result : ResultBytes command.resultLength)
    (h : Unaltered x c) (hending : Ending x command result.toList .polling t) : Attempt.Ensures recorded (do
      Operation.absorb command result
      return ({
        result := result.toList
        status := (← getThe Controller).status
        transferred := 0
        endedBy := .polling } : Report)) (fun report => Attained x command report) (fun _ _ _ => True) c t := by
  have hlength : command.reportedLength = command.resultLength := by rw [Command.reportedLength, hkind]
  have hreport : ∀ {c' : Controller}, c'.status = command.statusAfter result.toList x.status →
      c'.cylinder = command.cylinderAfter result.toList x.cylinder → command.Succeeds c'.status →
      Attained x command ⟨result.toList, c'.status, 0, .polling, none⟩ c' t := by
    intro c' hstatus hcylinder hsucceeds
    exact ⟨hending, by rw [hlength]; exact result.fewest_le, by rw [hlength]; exact result.le_most, rfl, hstatus,
      hcylinder, hsucceeds⟩
  cases command with
  | recalibrate | seek | seekRelative | read | write => exact absurd hkind nofun
  | senseInterrupt =>
    refine hreport ?_ ?_ trivial
    · rw [Command.statusAfter, ← h.status, result.getD_toList ⟨0, by decide⟩]
      rfl
    · rw [Command.cylinderAfter, ← h.cylinder, List.getD_eq_getElem?_getD]
      rfl
  | senseDrive =>
    refine hreport ?_ h.cylinder trivial
    rw [Command.statusAfter, ← h.status, result.getD_toList ⟨0, by decide⟩]
    rfl
  | version => exact hreport h.status h.cylinder trivial
  | specify timing path => exact hreport h.status h.cylinder trivial
  | readId head =>
    refine Attempt.ensures_bind.mpr (Attempt.ensures_bind.mpr (Attempt.ensures_operation.mpr ?_))
    have hfull : (Command.readId head).resultLength = .exactly maxResult := rfl
    refine (ensures_absorbStatus_absorbed hfull result h).mono ?_
    rintro _ c' _ ⟨habsorbed, rfl⟩
    unfold Operation.checkStatus
    split
    · trivial
    · rename_i hgood
      refine hreport habsorbed.status habsorbed.cylinder ?_
      have hcode := normal_of_not_failure (Bool.eq_false_iff.mpr hgood) (by decide)
      rwa [← habsorbed.st0] at hcode

theorem ensures_runImmediate_attained (hkind : command.kind = .immediate) (h : Unaltered x c) :
    Attempt.Ensures recorded (Operation.runImmediate command bytes)
      (fun report => Attained x command report) (fun _ _ _ => True) c t := by
  have hconversing := conversing_noticed x command .polling
  have hnoticed : Noticed x command .polling t := nofun
  unfold Operation.runImmediate
  rw [Attempt.ensures_bind]
  refine (hconversing.sendBytes bytes false c t ⟨h, hnoticed⟩).mono ?_ fun _ _ _ _ => trivial
  intro _ c₁ t₁ h₁
  rw [Attempt.ensures_bind]
  refine (hconversing.awaitAnswer command.resultLength c₁ t₁ h₁).mono ?_ fun _ _ _ _ => trivial
  rintro _ c₂ t₂ ⟨h₂, hnoticed₂⟩
  rw [Attempt.ensures_bind]
  refine (ensures_takeResult_ending _ h₂ hnoticed₂).mono ?_ fun _ _ _ => id
  exact fun result c₃ t₃ ⟨h₃, hending⟩ => ensures_absorb_attained hkind result h₃ hending

theorem ensures_receiveStatus_absorbed (hfull : command.resultLength = .exactly maxResult) (h : Unaltered x c)
    (hnoticed : Noticed x command sign t) : Attempt.Ensures recorded Operation.receiveStatus
      (fun result c' t' => Absorbed x command result c' ∧ Ending x command result.toList sign t')
      (fun _ _ _ => True) c t := by
  unfold Operation.receiveStatus
  rw [Attempt.ensures_bind]
  refine (ensures_takeResult_ending _ h hnoticed).mono ?_ fun _ _ _ => id
  rintro result c₁ t₁ ⟨h₁, hending⟩
  rw [Attempt.ensures_bind, Attempt.ensures_operation]
  refine (ensures_absorbStatus_absorbed hfull result h₁).mono ?_
  rintro _ c₂ _ ⟨habsorbed, rfl⟩
  exact ⟨habsorbed, hending⟩

theorem ensures_conclude_attained {direction : Direction} {result : ResultBytes (.exactly maxResult)}
    (hdata : command.transfer? = some (span, direction)) (transferred : Nat) (h : Absorbed x command result c)
    (hending : Ending x command result.toList sign t) :
    Attempt.Ensures recorded (Operation.conclude span transfer result transferred sign)
      (fun report => Attained x command report) (fun _ _ _ => True) c t := by
  have hkind := Command.kind_of_data hdata
  have hlength : command.reportedLength = .exactly maxResult := by
    rw [Command.reportedLength, hkind]
    exact Command.resultLength_of_transfer hkind
  unfold Operation.conclude Operation.checkStatus
  rw [Attempt.ensures_bind]
  split
  · trivial
  rename_i hgood
  have hcode := ended_of_not_failure (Bool.eq_false_iff.mpr hgood)
  rw [← h.st0, ← h.st1, ← h.st2] at hcode
  have hsucceeds : command.Succeeds c.status := Command.succeeds_of_transfer hkind hcode
  split
  · trivial
  rw [Attempt.ensures_pure]
  dsimp only
  rw [Attempt.ensures_bind, Attempt.ensures_operation, Operation.ensures_log]
  refine Program.ensures_recorded.mpr fun _ => ?_
  have hlogged := hending.append (u := [⟨.log c.base (.moved transferred transfer.direction span), ()⟩])
    (by simp [Unread])
  exact ⟨hlogged, by rw [hlength]; exact result.fewest_le, by rw [hlength]; exact result.le_most, rfl, h.status,
    h.cylinder, hsucceeds⟩

/-- The channel is asked how far it has come after the result is in. -/
theorem ensures_report_attained {channel : UInt8} {direction : Direction} {result : ResultBytes (.exactly maxResult)}
    (hdata : command.transfer? = some (span, direction)) (h : Absorbed x command result c)
    (hending : Ending x command result.toList sign t) : Delivery.Ensures recorded (do
      let moved ← Channel.moved channel transfer.length
      Operation.emptyBounce transfer moved
      .attempt (Operation.conclude span transfer result moved sign) : Delivery Report)
      (fun report _ => Attained x command report) (fun _ _ _ _ => True) taken c t := by
  have hconclude : ∀ moved taken t', Ending x command result.toList sign t' →
      Delivery.Ensures recorded (.attempt (Operation.conclude span transfer result moved sign))
        (fun report _ => Attained x command report) (fun _ _ _ _ => True) taken c t' :=
    fun moved taken t' hending' => Delivery.ensures_attempt.mpr (ensures_conclude_attained hdata moved h hending')
  rw [Delivery.ensures_bind, Delivery.ensures_lift]
  refine (Channel.ensures_moved channel transfer.length).mono ?_
  rintro moved _ ⟨left, ranOut, rfl, -⟩
  have hcounted := hending.append (u := Channel.counting channel left ranOut) (by simp [Channel.counting, Unread])
  unfold Operation.emptyBounce
  rw [Delivery.ensures_bind]
  split
  · exact hconclude moved _ _ hcounted
  · rw [Delivery.ensures_bind, Delivery.ensures_lift]
    refine Program.ensures_recorded.mpr fun bytes => ?_
    exact hconclude moved _ _ (hcounted.append (u := [⟨.memory (.fetch moved), bytes⟩]) (by simp [Unread]))

theorem ensures_transferByChannel_attained {channel : UInt8} {direction : Direction}
    (hdata : command.transfer? = some (span, direction)) (h : Unaltered x c) :
    Delivery.Ensures recorded
      (Operation.transferByChannel channel (command.bytes x.drive x.recording) span transfer)
      (fun report _ => Attained x command report) (fun _ _ _ _ => True) taken c t := by
  have hkind := Command.kind_of_data hdata
  have hfull := Command.resultLength_of_transfer hkind
  have hunaltered := conversing_unaltered x
  unfold Operation.transferByChannel
  rw [Delivery.ensures_bind, Delivery.ensures_lift]
  refine (Program.ensures_execution _ t).mono fun _ t₁ _ => ?_
  rw [Delivery.ensures_bind, Delivery.ensures_lift]
  refine Program.ensures_recorded.mpr fun address => ?_
  rw [Program.ensures_done, Delivery.ensures_bind, Delivery.ensures_attempt]
  refine (ensures_sendCommand_armedFor true _ h fun _ => rfl).mono ?_ fun _ _ _ => id
  rintro _ c₂ t₂ ⟨h₂, harmed⟩
  rw [Delivery.ensures_bind, Delivery.ensures_attempt]
  refine (ensures_awaitEnd_noticed _ _ h₂ (.inr hkind) harmed).mono ?_ fun _ _ _ => id
  intro sign c₃ t₃ h₃
  rw [Delivery.ensures_bind, Delivery.ensures_attempt]
  refine ((conversing_noticed x command sign).awaitResult c₃ t₃ h₃).mono ?_ fun _ _ _ _ => trivial
  rintro _ c₄ t₄ ⟨h₄, hnoticed⟩
  rw [Delivery.ensures_bind, Delivery.ensures_attempt]
  refine (ensures_receiveStatus_absorbed hfull h₄ hnoticed).mono ?_ fun _ _ _ => id
  exact fun result c₅ t₅ ⟨habsorbed, hending⟩ => ensures_report_attained hdata habsorbed hending

theorem ensures_transferByPort_attained {direction : Direction} (hdata : command.transfer? = some (span, direction))
    (h : Unaltered x c) : Delivery.Ensures recorded (Operation.transferByPort bytes span transfer)
      (fun report _ => Attained x command report) (fun _ _ _ _ => True) taken c t := by
  have hfull := Command.resultLength_of_transfer (Command.kind_of_data hdata)
  have hunaltered := conversing_unaltered x
  unfold Operation.transferByPort
  rw [Delivery.ensures_bind, Delivery.ensures_attempt]
  refine (hunaltered.sendBytes bytes false c t h).mono ?_ fun _ _ _ _ => trivial
  intro _ c₁ t₁ h₁
  rw [Delivery.ensures_bind, Delivery.ensures_operation]
  refine (hunaltered.setPhase _ c₁ t₁ h₁).mono fun _ c₂ t₂ h₂ => ?_
  rw [Delivery.ensures_bind, Delivery.ensures_getThe, Delivery.ensures_bind]
  refine (hunaltered.stepSectors span _ taken h₂).mono ?_ fun _ _ _ _ _ => trivial
  intro moved taken₃ c₃ t₃ h₃
  dsimp only
  split
  · trivial
  rw [Delivery.ensures_bind, Delivery.ensures_attempt]
  have hnoticed : Noticed x command .polling t₃ := nofun
  refine (ensures_receiveStatus_absorbed hfull h₃ hnoticed).mono ?_ fun _ _ _ => id
  rintro result c₄ t₄ ⟨habsorbed, hending⟩
  exact Delivery.ensures_attempt.mpr (ensures_conclude_attained hdata moved habsorbed hending)

theorem ensures_transfer_attained {direction : Direction} (hdata : command.transfer? = some (span, direction))
    (h : Unaltered x c) :
    Delivery.Ensures recorded (Operation.transfer (command.bytes x.drive x.recording) span transfer)
      (fun report _ => Attained x command report) (fun _ _ _ _ => True) taken c t := by
  unfold Operation.transfer
  rw [Delivery.ensures_bind, Delivery.ensures_getThe, Delivery.ensures_bind, Delivery.ensures_attempt]
  refine ((conversing_unaltered x).agreeOnPath c t h).mono ?_ fun _ _ _ _ => trivial
  intro _ c₁ t₁ h₁
  split
  · exact ensures_transferByChannel_attained hdata h₁
  · exact ensures_transferByPort_attained hdata h₁

theorem ensures_carryOut_attained {t' : Option Transfer} (hpayload : command.Furnished t') (h : Unaltered x c) :
    Delivery.Ensures recorded (Operation.carryOut command (command.bytes x.drive x.recording) t')
      (fun report _ => Attained x command report) (fun _ _ _ _ => True) taken c t := by
  have hunaltered := resettable_unaltered x
  unfold Operation.carryOut
  rw [Delivery.ensures_bind, Delivery.ensures_getThe, Delivery.ensures_bind, Delivery.ensures_operation]
  refine (hunaltered.readyDrive command c.drive c t h).mono fun _ c₁ t₁ h₁ => ?_
  rw [Delivery.ensures_bind, Delivery.ensures_operation]
  refine (hunaltered.makeReceptive c₁ t₁ h₁).mono fun _ c₂ t₂ h₂ => ?_
  split
  · rename_i hdata
    exact ensures_transfer_attained hdata h₂
  · rename_i t' _ _ hnone
    have hkind : command.kind ≠ .transfer := by
      have hdataless : command.transfer? = none := by
        cases t' with
        | none => exact hpayload
        | some transfer =>
          obtain ⟨span, hfits⟩ := hpayload
          exact (hnone _ _ _ hfits.data rfl).elim
      cases command with
      | read | write => exact absurd hdataless nofun
      | _ => exact nofun
    split
    · rename_i hseek
      exact Delivery.ensures_attempt.mpr (ensures_runSeek_attained hseek _ h₂)
    · rename_i hseek
      have himmediate : command.kind = .immediate := by
        cases hcommand : command.kind with
        | immediate => rfl
        | seek => exact absurd hcommand hseek
        | transfer => exact absurd hcommand hkind
      exact Delivery.ensures_attempt.mpr (ensures_runImmediate_attained himmediate h₂)

end Diskette
