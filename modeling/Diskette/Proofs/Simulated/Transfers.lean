import Diskette.Proofs.Acceptance
import Diskette.Proofs.Simulated.Perform
import Diskette.Proofs.Simulated.Port

/-!
Data commands on a simulated controller that no fault hinders. Whichever path the payload takes, all of
it comes through.
-/
namespace Diskette

open Simulated
open Diskette.Core (surroundings)

variable {c c' : Controller} {k k' k₁ : Core} {m : Simulated} {command : Command} {span : SectorSpan}
  {direction : Direction} {t : Transfer} {x : Extent} {drive : Drive} {flags : RecordingMode}

/-- A command has moved its payload, between the buffer and the disk as it was before, and no head. -/
structure Moved (t : Transfer) (x : Extent) (c : Controller) (k : Core) (report : Report)
    (delivered : List UInt8) (c' : Controller) (k' : Core) : Prop where
  transferred : report.transferred = t.length
  carried : Carried c c'
  settled : Settled c' k'
  cylinders : k'.fdc.cylinders = k.fdc.cylinders
  faults : k'.faults = k.faults
  bounce : k'.bounce.size = k.bounce.size
  payload : match t.buffer with
    | .destination _ => delivered = k.fdc.disk.read x ∧ k'.fdc.disk = k.fdc.disk
    | .source source => k'.fdc.disk = k.fdc.disk.write x (source.take t.length)

theorem order_of_transfer (hdata : command.transfer? = some (span, direction)) (drive : Drive) :
    command.order drive = .transfer (direction == .fromMemory) (span.extent drive) := by
  cases command <;> simp only [Command.transfer?, reduceCtorEq, Option.some.injEq, Prod.mk.injEq]
    at hdata
  case read =>
    obtain ⟨rfl, rfl⟩ := hdata
    rfl
  case write =>
    obtain ⟨rfl, rfl⟩ := hdata
    rfl

theorem goes_receiveStatus {bs : List UInt8} (hopen : Core.Open c.base k) (hf : k.faults.Harmless)
    (hlength : bs.length = maxResult) :
    Goes Operation.receiveStatus (fun result c' k' => result.toList = bs ∧ Abides c c' ∧
      k' = k.answer []) c (k.answer bs) := by
  have htake := goes_takeResult (n := .exactly maxResult) hopen hf (Nat.le_of_eq hlength.symm)
    (Nat.le_of_eq hlength)
  refine Attempt.ensures_bind.mpr (htake.mono ?_ fun _ _ _ => id)
  rintro result c₁ _ ⟨hresult, hc₁, rfl⟩
  exact ⟨hresult, ⟨hc₁.setting, hc₁.specified⟩, rfl⟩

theorem goes_conclude {bs : List UInt8} {result : ResultBytes (.exactly maxResult)}
    (hresult : result.toList = bs)
    (hgood : indicatesFailure .transfer (bs.getD 0 0) (bs.getD 1 0) (bs.getD 2 0) = false)
    (endedBy : EndSign) :
    Goes (Operation.conclude span t result t.length endedBy) (fun report c' k' =>
      report.transferred = t.length ∧ c' = c ∧ k' = k) c k := by
  unfold Operation.conclude
  refine Attempt.ensures_bind.mpr ((goes_checkStatus hresult hgood).mono ?_ fun _ _ _ => id)
  rintro _ c k ⟨rfl, rfl⟩
  rw [if_neg (Nat.lt_irrefl _)]
  simp only [Attempt.ensures_bind, Attempt.ensures_operation, Operation.ensures_log,
    Attempt.ensures_getThe, Attempt.ensures_pure]
  have hlog : ∀ event, (Platform.log c.base event).Only (Core.Incidental k.fdc.base) :=
    fun _ => .perform (by trivial)
  apply (Core.ensures_incidental (hlog _)).mono
  rintro _ _ rfl
  exact ⟨trivial, trivial, rfl⟩

theorem good_channel {head : UInt8} (hhead : head ≤ 1) (drive : Drive) :
    indicatesFailure .transfer ((head <<< 2) ||| drive.index) 0 0 = false := by
  unfold indicatesFailure
  rw [ofSt0_unit drive hhead]

theorem good_port {head : UInt8} (hhead : head ≤ 1) (drive : Drive) :
    indicatesFailure .transfer (((head <<< 2) ||| drive.index) ||| 0x40) endOfCylinder 0 = false := by
  have h : ∀ n ≤ 1, indicatesFailure .transfer
      (((UInt8.ofNat n <<< 2) ||| drive.index) ||| 0x40) endOfCylinder 0 = false := by
    cases drive <;> decide
  simpa using h head.toNat (UInt8.le_iff_toNat_le.mp hhead)

theorem core_startTransfer_port (hpath : m.core.fdc.nonDma = true) {write : Bool}
    (hread : m.core.fdc.disk.read x ≠ []) (hsome : 0 < x.byteLength) :
    (m.startTransfer write x).core =
      if write then m.core.taking x [] else m.core.giving x (m.core.fdc.disk.read x) 0 := by
  unfold startTransfer
  rw [if_pos (by exact hpath)]
  cases write with
  | true =>
    have hmore : ([] : List UInt8).length ≠ x.byteLength := Nat.ne_of_lt hsome
    rw [if_pos rfl, Core.taking, if_neg hmore]
    rfl
  | false =>
    rw [if_neg Bool.false_ne_true, Core.giving, if_neg hread]
    rfl

/-- The controller once all of a payload has gone through the port. -/
def Core.ported (k : Core) (t : Transfer) (x : Extent) : Core :=
  match t.buffer with
  | .destination _ => k
  | .source source =>
    { k with fdc := { k.fdc with disk := k.fdc.disk.write x (source.take t.length) } }

theorem delivers_stepSectors {base : UInt16} (hopen : Core.Open base k) (hf : k.faults.Harmless)
    (hfits : t.Fits command span)
    (hread : (k.fdc.disk.read (span.extent drive)).length = span.byteLength) :
    Delivery.Ensures surroundings (Operation.stepSectors base span t.buffer)
      (fun moved delivered c' k' => moved = t.length ∧ c' = c ∧
        k' = (k.ported t (span.extent drive)).answer ((span.extent drive).result
          ((span.extent drive).unit ||| 0x40) endOfCylinder 0) ∧
        match t.buffer with
        | .destination _ => delivered = k.fdc.disk.read (span.extent drive)
        | .source _ => True)
      (fun _ _ _ _ => False) [] c
      (if t.direction == .fromMemory then k.taking (span.extent drive) []
        else k.giving (span.extent drive) (k.fdc.disk.read (span.extent drive)) 0) := by
  have hvalid : span.validate = .ok () := Command.validate_span hfits.data hfits.valid
  have hbytes := SectorSpan.byteLength_eq hvalid
  have hextent := SectorSpan.byteLength_extent hvalid drive
  obtain ⟨length, buffer⟩ := t
  obtain rfl : length = span.byteLength := hfits.length_eq
  cases buffer with
  | destination bytes =>
    have hsectors := ensures_readSectors (x := span.extent drive) hopen hf (hread.trans hbytes) 0
    refine Delivery.ensures_bind.mpr (Delivery.ensures_lift.mpr (hsectors.mono ?_))
    rintro _ _ ⟨rfl, rfl⟩
    refine Delivery.ensures_bind.mpr (Delivery.ensures_deliver.mpr ?_)
    exact ⟨hread, rfl, rfl, rfl⟩
  | source bytes =>
    have hroom : span.count.toNat * span.sectorBytes ≤ bytes.length := hbytes ▸ hfits.length_le
    have hsectors := ensures_writeSectors (x := span.extent drive) hopen hf hroom []
      (by rw [hextent, hbytes]; simp)
    refine Delivery.ensures_lift.mpr (hsectors.mono ?_)
    rintro moved _ ⟨hmoved, rfl⟩
    have hwhole : (bytes.take (span.count.toNat * span.sectorBytes)).length =
        (span.extent drive).byteLength := by
      rw [List.length_take, Nat.min_eq_left hroom, hextent, hbytes]
    refine ⟨hmoved.trans hbytes.symm, rfl, ?_, trivial⟩
    rw [List.nil_append, Core.taking, if_pos hwhole, ← hbytes]
    rfl

theorem Core.Open.ported {base : UInt16} (h : Core.Open base k) (t : Transfer) (x : Extent) :
    Core.Open base (k.ported t x) := by
  unfold Core.ported
  split
  · exact h
  · exact ⟨⟨h.present, h.base_eq, h.room⟩, h.outOfReset, h.whole⟩

theorem Settled.ported (h : Settled c k) (hc : Abides c c') (bytes : List UInt8) (t : Transfer)
    (x : Extent) : Settled c' (((k.took bytes).ported t x).answer []) := by
  have hanswered := h.answered hc bytes
  unfold Core.ported
  split
  · exact hanswered
  · exact ⟨⟨⟨hanswered.present, hanswered.base_eq, hanswered.room⟩, hanswered.output_eq,
      hanswered.outOfReset⟩, rfl, rfl, hanswered.quiet, hanswered.told⟩

theorem faults_ported (k : Core) (t : Transfer) (x : Extent) :
    (k.ported t x).faults = k.faults := by
  unfold Core.ported
  split <;> rfl

/-- The payload is to go through the port now. -/
theorem core_obey_port (hfits : t.Fits command span) (hpath : k.fdc.nonDma = true)
    (hread : (k.fdc.disk.read (span.extent drive)).length = span.byteLength) (hm : m.core = k) :
    (m.obey (command.order drive)).core =
      if t.direction == .fromMemory then k.taking (span.extent drive) []
      else k.giving (span.extent drive) (k.fdc.disk.read (span.extent drive)) 0 := by
  subst hm
  have hvalid : span.validate = .ok () := Command.validate_span hfits.data hfits.valid
  have hsome : 0 < span.byteLength := SectorSpan.byteLength_pos hvalid
  have hne : m.core.fdc.disk.read (span.extent drive) ≠ [] := by
    intro hnil
    rw [hnil, List.length_nil] at hread
    omega
  rw [order_of_transfer hfits.data]
  exact core_startTransfer_port hpath hne (by rw [SectorSpan.byteLength_extent hvalid]; exact hsome)

theorem delivers_transferByPort (h : Settled c k) (hf : k.faults.Harmless)
    (hpath : k.fdc.nonDma = true) (hfits : t.Fits command span)
    (hread : (k.fdc.disk.read (span.extent drive)).length = span.byteLength) :
    Delivers (Operation.transferByPort (command.bytes drive flags) span t)
      (Moved t (span.extent drive) c k) c k := by
  have hvalid : span.validate = .ok () := Command.validate_span hfits.data hfits.valid
  have hlength := Command.length_bytes command drive flags
  have hsend := goes_sendBytes h.idle hf (ne_nil_of_order hlength)
    hlength false
  unfold Delivers Operation.transferByPort
  rw [Delivery.ensures_bind, Delivery.ensures_attempt]
  refine hsend.mono ?_ fun _ _ _ => id
  rintro _ c₁ _ ⟨hc₁, m, hm, rfl⟩
  have hk₁ : ({ k with channel := k.channel } : Core).took (command.bytes drive flags) =
      k.took (command.bytes drive flags) := rfl
  rw [hk₁] at hm
  have hopen : Core.Open c₁.base (k.took (command.bytes drive flags)) := hc₁.base ▸ h.idle.took _
  rw [Command.ofBytes_bytes hfits.valid,
    core_obey_port (k := k.took (command.bytes drive flags)) hfits hpath hread hm]
  rw [Delivery.ensures_bind, Delivery.ensures_operation, Operation.ensures_setPhase,
    Delivery.ensures_bind, Delivery.ensures_getThe, Delivery.ensures_bind]
  refine (delivers_stepSectors hopen hf hfits hread).mono ?_ fun _ _ _ _ => id
  rintro moved delivered c₂ _ ⟨rfl, rfl, rfl, hdelivered⟩
  have hopen₂ := hopen.ported t (span.extent drive)
  have hf₂ : ((k.took (command.bytes drive flags)).ported t (span.extent drive)).faults.Harmless :=
    (faults_ported _ t _).symm ▸ hf
  rw [if_neg (by simp), Delivery.ensures_bind, Delivery.ensures_attempt]
  refine (goes_receiveStatus hopen₂ hf₂ rfl).mono ?_ fun _ _ _ => id
  rintro result c₃ _ ⟨hresult, hc₃, rfl⟩
  have hhead : span.head ≤ 1 := (SectorSpan.validate_eq_ok_iff.mp hvalid).1
  rw [Delivery.ensures_attempt]
  refine (goes_conclude hresult (good_port hhead drive) .polling).mono ?_ fun _ _ _ => id
  rintro report c₄ _ ⟨htransferred, rfl, rfl⟩
  have hc : Abides c c₄ := hc₁.trans hc₃
  refine ⟨htransferred, carried_of_setting hc.setting, h.ported hc _ t _, ?_, faults_ported _ t _, ?_, ?_⟩
  · unfold Core.ported
    split <;> rfl
  · unfold Core.ported
    split <;> rfl
  · obtain ⟨length, buffer⟩ := t
    cases buffer with
    | destination bytes => exact ⟨hdelivered, rfl⟩
    | source bytes => rfl

/-- All of a payload has gone through the channel. -/
structure Crossed (t : Transfer) (x : Extent) (k k' : Core) : Prop where
  registers : k'.fdc = { k.fdc with disk := k'.fdc.disk }
  faults : k'.faults = k.faults
  bounce : k'.bounce.size = k.bounce.size
  terminal : k'.channel.terminal = true
  payload : match t.buffer with
    | .destination _ => k'.bounce.toList.take t.length = k.fdc.disk.read x ∧
      k'.fdc.disk = k.fdc.disk
    | .source source => k'.fdc.disk = k.fdc.disk.write x (source.take t.length)

/-- What is to be written lies in the bounce buffer. -/
def Core.Filled (k : Core) (t : Transfer) : Prop :=
  match t.buffer with
  | .destination _ => True
  | .source source => k.bounce.toList.take t.length = source.take t.length

theorem ensures_fillBounce (hlength : t.length ≤ t.buffer.bytes.length)
    (hbounce : t.length ≤ k.bounce.size) :
    (Operation.fillBounce t).Ensures surroundings (fun _ k' => ∃ bounce, k' = { k with bounce } ∧
      bounce.size = k.bounce.size ∧ k'.Filled t) k := by
  obtain ⟨length, buffer⟩ := t
  cases buffer with
  | destination bytes => exact ⟨k.bounce, rfl, rfl, trivial⟩
  | source bytes =>
    have hwhole : (bytes.take length).length = length := by
      rw [List.length_take]
      exact Nat.min_eq_left hlength
    have hfits : (bytes.take length).length ≤ k.bounce.size := hwhole.symm ▸ hbounce
    apply (Core.ensures_store (bytes.take length)).mono
    rintro _ _ rfl
    refine ⟨_, rfl, Memory.size_write { bounce := k.bounce } 0 _, ?_⟩
    have hlist := Memory.toList_write { bounce := k.bounce } hfits
    dsimp only [Core.Filled] at hlist ⊢
    rw [hlist, List.take_append_of_le_length (Nat.le_of_eq hwhole.symm), List.take_take, Nat.min_self]

theorem swapped_crossed (hbounce : t.length ≤ k.bounce.size) (hlength : x.byteLength = t.length)
    (hread : (k.fdc.disk.read x).length = t.length) (hfilled : k.Filled t) :
    Crossed t x k (k.swapped (t.direction == .fromMemory) x) := by
  obtain ⟨length, buffer⟩ := t
  obtain rfl : x.byteLength = length := hlength
  cases buffer with
  | destination bytes =>
    have hwhole : (k.fdc.disk.read x).take x.byteLength = k.fdc.disk.read x :=
      List.take_of_length_le (Nat.le_of_eq hread)
    have hfits : (k.fdc.disk.read x).length ≤ k.bounce.size := hread.symm ▸ hbounce
    have hlist := Memory.toList_write { bounce := k.bounce } hfits
    have hsize := Memory.size_write { bounce := k.bounce } 0 (k.fdc.disk.read x)
    refine ⟨rfl, rfl, ?_, rfl, ?_, rfl⟩
    · change (Memory.write { bounce := k.bounce } 0
        ((k.fdc.disk.read x).take x.byteLength)).bounce.size = k.bounce.size
      rw [hwhole]
      exact hsize
    · change (Memory.write { bounce := k.bounce } 0
        ((k.fdc.disk.read x).take x.byteLength)).bounce.toList.take x.byteLength = k.fdc.disk.read x
      rw [hwhole, hlist, List.take_left' hread]
  | source bytes =>
    refine ⟨rfl, rfl, rfl, rfl, ?_⟩
    exact congrArg (k.fdc.disk.write x) hfilled

theorem Core.Open.crossed {base : UInt16} (h : Core.Open base k) (hcrossed : Crossed t x k k') :
    Core.Open base k' := by
  have hfdc := hcrossed.registers
  generalize k'.fdc.disk = disk at hfdc
  refine ⟨⟨?_, ?_, h.room⟩, ?_, ?_⟩ <;> rw [hfdc]
  · exact h.present
  · exact h.base_eq
  · exact h.outOfReset
  · exact h.whole

theorem Settled.crossed {bytes : List UInt8} (h : Settled c k) (hc : Abides c c')
    (hcrossed : Crossed t x (k.took bytes) k₁) (channel : ChannelState) :
    Settled c' { k₁.answer [] with channel } := by
  have hfdc := hcrossed.registers
  have hanswered := h.answered hc bytes
  generalize k₁.fdc.disk = disk at hfdc
  refine ⟨⟨⟨?_, ?_, hanswered.room⟩, ?_, hanswered.outOfReset⟩, ?_, rfl, ?_, fun path hpath => ?_⟩ <;>
    dsimp only [Core.answer, Fdc.answer] <;> rw [hfdc]
  · exact hanswered.present
  · exact hanswered.base_eq
  · exact hanswered.output_eq
  · rfl
  · exact hanswered.quiet
  · exact hanswered.told path hpath

/-- The payload goes through the channel now. -/
theorem core_obey_channel (hm : m.core = k) (hfits : t.Fits command span)
    (hpath : k.fdc.nonDma = false) (hgate : k.fdc.gateOpen = true) (hf : k.faults.Harmless)
    (hchannel : k.channel = loadedChannel t.direction k.bounceAddress t.length)
    (hread : (k.fdc.disk.read (span.extent drive)).length = span.byteLength)
    (hbounce : t.length ≤ k.bounce.size) (hfilled : k.Filled t) :
    ∃ k', (m.obey (command.order drive)).core =
        k'.answer ((span.extent drive).result (span.extent drive).unit 0 0) ∧
      Crossed t (span.extent drive) k k' := by
  subst hm
  have hvalid : span.validate = .ok () := Command.validate_span hfits.data hfits.valid
  have hlength : (span.extent drive).byteLength = t.length :=
    (SectorSpan.byteLength_extent hvalid drive).trans hfits.length_eq.symm
  have hready : m.core.channel.readyFor
      (if (t.direction == .fromMemory) then .fromMemory else .toMemory) = true := by
    rw [hchannel]
    cases t.direction <;> rfl
  have hcount : m.core.channel.count = UInt32.ofNat (span.extent drive).byteLength := by
    rw [hchannel, hlength]
    rfl
  have haddress : m.core.channel.address = m.core.bounceAddress := by rw [hchannel]; rfl
  refine ⟨m.core.swapped (t.direction == .fromMemory) (span.extent drive), ?_,
    swapped_crossed hbounce hlength (hread.trans hfits.length_eq.symm) hfilled⟩
  have hway : ¬ m.fdc.nonDma = true := Bool.eq_false_iff.mp hpath
  rw [order_of_transfer hfits.data]
  change (m.startTransfer _ _).core = _
  unfold startTransfer
  rw [if_neg hway]
  refine core_channelTransfer hgate hready hf hcount ?_ haddress
  rw [SectorSpan.byteLength_extent hvalid]
  exact SectorSpan.byteLength_lt hvalid

theorem delivers_emptyBounce (hbounce : t.length ≤ k.bounce.size) :
    Delivery.Ensures surroundings (Operation.emptyBounce t t.length) (fun _ delivered c' k' =>
      c' = c ∧ k' = k ∧ match t.buffer with
        | .destination _ => delivered = k.bounce.toList.take t.length
        | .source _ => True) (fun _ _ _ _ => False) [] c k := by
  obtain ⟨length, buffer⟩ := t
  cases buffer with
  | source bytes => exact ⟨rfl, rfl, trivial⟩
  | destination bytes =>
    refine Delivery.ensures_bind.mpr (Delivery.ensures_lift.mpr ((Core.ensures_fetch _).mono ?_))
    rintro _ _ ⟨rfl, rfl⟩
    exact ⟨rfl, rfl, toList_ofFn_getD hbounce⟩

theorem goes_awaitResult {b : UInt8} {bs : List UInt8} (hopen : Core.Open c.base k)
    (hf : k.faults.Harmless) : Goes Operation.awaitResult
      (fun _ c' k' => c' = c ∧ k' = k.answer (b :: bs)) c (k.answer (b :: bs)) := by
  simp only [Goes, Operation.awaitResult, Attempt.ensures_bind, Attempt.ensures_getThe,
    Attempt.ensures_of]
  apply (Core.ensures_awaitResult (hopen.answer _).toAt).mono
  rintro _ _ ⟨rfl, rfl⟩
  rw [Core.status_answer_cons hopen.outOfReset hf.withholdResults]
  exact ⟨trivial, rfl⟩

/-- A data command goes out, with the channel set up for it, and its payload goes through at once. -/
theorem goes_sendThrough (h : Settled c k) (hf : k.faults.Harmless) (hpath : k.fdc.nonDma = false)
    (hgate : c.shadow.output.gate = true) (hfits : t.Fits command span)
    (hbounce : t.length ≤ k.bounce.size)
    (hread : (k.fdc.disk.read (span.extent drive)).length = span.byteLength) (hfilled : k.Filled t) :
    Goes (Operation.sendCommand (command.bytes drive flags) true
        (some ⟨fdcChannel, t.direction, k.bounceAddress, t.length⟩))
      (fun _ c' k' => Abides c c' ∧ ∃ k₁,
        k' = k₁.answer ((span.extent drive).result (span.extent drive).unit 0 0) ∧
        Crossed t (span.extent drive) (k.took (command.bytes drive flags)) k₁) c k := by
  have hlength := Command.length_bytes command drive flags
  have hload : (Operation.setUpChannel
      (some ⟨fdcChannel, t.direction, k.bounceAddress, t.length⟩)).Ensures surroundings (fun _ k' =>
        k' = { k with channel := (loadedChannel t.direction k.bounceAddress t.length) }) k :=
    ensures_setUp _ _ _
  refine (goes_sendCommand h.idle hf (ne_nil_of_order hlength) hlength true hload).mono ?_ fun _ _ _ => id
  rintro _ c₁ _ ⟨hc₁, m, hm, rfl⟩
  rw [Command.ofBytes_bytes hfits.valid]
  obtain ⟨k₁, hobey, hcrossed⟩ := core_obey_channel hm hfits hpath (h.toLinked.gateOpen.trans hgate) hf
    rfl hread hbounce hfilled
  exact ⟨hc₁, k₁, hobey,
    ⟨hcrossed.registers, hcrossed.faults, hcrossed.bounce, hcrossed.terminal, hcrossed.payload⟩⟩

theorem delivers_transferByChannel (h : Settled c k) (hf : k.faults.Harmless)
    (hpath : k.fdc.nonDma = false) (hgate : c.shadow.output.gate = true)
    (hfits : t.Fits command span) (hbounce : t.length ≤ k.bounce.size)
    (hread : (k.fdc.disk.read (span.extent drive)).length = span.byteLength) :
    Delivers (Operation.transferByChannel fdcChannel (command.bytes drive flags) span t)
      (Moved t (span.extent drive) c k) c k := by
  have hvalid : span.validate = .ok () := Command.validate_span hfits.data hfits.valid
  have hhead : span.head ≤ 1 := (SectorSpan.validate_eq_ok_iff.mp hvalid).1
  unfold Delivers Operation.transferByChannel
  rw [Delivery.ensures_bind, Delivery.ensures_lift]
  apply (ensures_fillBounce hfits.length_le hbounce).mono
  rintro _ _ ⟨bounce, rfl, hsize, hfilled⟩
  rw [Delivery.ensures_bind, Delivery.ensures_lift]
  apply Core.ensures_bounceAddress.mono
  rintro _ _ ⟨rfl, rfl⟩
  have hsame : Core.Same k { k with bounce } := ⟨rfl, rfl, rfl, rfl, rfl, rfl, rfl, hsize⟩
  have h₁ : Settled c { k with bounce } := h.same (.refl c) hsame h.whole h.command h.quiet
  have hbounce₁ : t.length ≤ bounce.size := hsize ▸ hbounce
  rw [Delivery.ensures_bind, Delivery.ensures_attempt]
  refine (goes_sendThrough h₁ hf hpath hgate hfits hbounce₁ hread hfilled).mono ?_ fun _ _ _ => id
  rintro _ c₁ _ ⟨hc₁, k₁, rfl, hcrossed⟩
  have hopen : Core.Open c₁.base k₁ := (hc₁.base ▸ h₁.idle.took _).crossed hcrossed
  have hf₁ : k₁.faults.Harmless := hcrossed.faults ▸ hf
  have hgiven := Core.status_answer_cons hopen.outOfReset hf₁.withholdResults (span.extent drive).unit
    [0, 0, span.cylinder, span.head, (span.extent drive).last, span.sizeCode]
  rw [Delivery.ensures_bind, Delivery.ensures_attempt]
  refine (goes_awaitEnd (hopen.answer _).toAt (by exact hgiven ▸ rfl) _).mono ?_ fun _ _ _ => id
  rintro endedBy c₂ _ ⟨hc₂, rfl⟩
  rw [← hc₂.base] at hopen
  rw [Delivery.ensures_bind, Delivery.ensures_attempt]
  refine (goes_awaitResult hopen hf₁).mono ?_ fun _ _ _ => id
  rintro _ c₂ _ ⟨rfl, rfl⟩
  rw [Delivery.ensures_bind, Delivery.ensures_attempt]
  refine (goes_receiveStatus hopen hf₁ rfl).mono ?_ fun _ _ _ => id
  rintro result c₃ _ ⟨hresult, hc₃, rfl⟩
  rw [Delivery.ensures_bind, Delivery.ensures_lift]
  apply (ensures_moved (k := k₁.answer []) hcrossed.terminal t.length).mono
  rintro _ _ ⟨rfl, rfl⟩
  have hbounce₂ : t.length ≤ k₁.bounce.size := hcrossed.bounce ▸ hbounce₁
  rw [Delivery.ensures_bind]
  refine (delivers_emptyBounce (by exact hbounce₂)).mono ?_ fun _ _ _ _ => id
  rintro _ delivered c₄ _ ⟨rfl, rfl, hdelivered⟩
  rw [Delivery.ensures_attempt]
  refine (goes_conclude hresult (good_channel hhead drive) endedBy).mono ?_ fun _ _ _ => id
  rintro report c₅ _ ⟨htransferred, rfl, rfl⟩
  have hc : Abides c c₅ := hc₁.trans (hc₂.trans hc₃)
  have hcylinders : k₁.fdc.cylinders = k.fdc.cylinders := by rw [hcrossed.registers]; rfl
  refine ⟨htransferred, carried_of_setting hc.setting, h₁.crossed hc hcrossed _, hcylinders, hcrossed.faults,
    hcrossed.bounce.trans hsize, ?_⟩
  have hpayload := hcrossed.payload
  obtain ⟨length, buffer⟩ := t
  cases buffer with
  | destination bytes => exact ⟨hdelivered.trans hpayload.1, hpayload.2⟩
  | source bytes => exact hpayload

/-- The only channel that the driver uses is the one that the controller is wired to. -/
def Wired (c : Controller) : Prop := ∀ channel, c.channel = some channel → channel = fdcChannel

theorem goes_agreeOnPath (h : Settled c k) (hf : k.faults.Harmless) :
    Goes Operation.agreeOnPath (fun _ c' k' => c'.setting = c.setting ∧ Settled c' k' ∧ Kept k k' ∧
      c'.specified = some c.path) c k := by
  have hlimit : k.faults.commandLimit ≠ some 0 := by simp [hf.commandLimit]
  unfold Operation.agreeOnPath
  rw [Goes, Attempt.ensures_bind, Attempt.ensures_getThe, Attempt.ensures_ite]
  split
  · rename_i hknown
    exact ⟨rfl, h, .refl k, hknown⟩
  · refine (ensures_specify h hlimit c.path).mono ?_ ?_
    · rintro _ _ k' ⟨rfl, hsettled, hkept⟩
      exact ⟨rfl, hsettled, hkept, rfl⟩
    · rintro cause _ k' ⟨-, -, -, hharm⟩
      exact hharm hf

theorem Moved.of_kept {report : Report} {delivered : List UInt8} {c₁ : Controller}
    (h : Moved t x c₁ k₁ report delivered c' k') (hc : Carried c c₁) (hkept : Kept k k₁) :
    Moved t x c k report delivered c' k' := by
  refine ⟨h.transferred, hc.trans h.carried, h.settled, h.cylinders.trans hkept.cylinders,
    h.faults.trans hkept.faults, h.bounce.trans hkept.bounce, ?_⟩
  rw [← hkept.disk]
  exact h.payload

theorem delivers_transfer (h : Settled c k) (hf : k.faults.Harmless) (hrouted : Routed c)
    (hwired : Wired c) (hfits : t.Fits command span) (hbounce : t.length ≤ k.bounce.size)
    (hread : (k.fdc.disk.read (span.extent drive)).length = span.byteLength) :
    Delivers (Operation.transfer (command.bytes drive flags) span t)
      (Moved t (span.extent drive) c k) c k := by
  unfold Delivers Operation.transfer
  rw [Delivery.ensures_bind, Delivery.ensures_getThe, Delivery.ensures_bind, Delivery.ensures_attempt]
  refine (goes_agreeOnPath h hf).mono ?_ fun _ _ _ => id
  rintro _ c₁ k₁ ⟨hsetting, h₁, hkept, htold⟩
  have hpath : k₁.fdc.nonDma = (c.path == .port) := h₁.told _ htold
  have hf₁ : k₁.faults.Harmless := hkept.faults ▸ hf
  have hread₁ : (k₁.fdc.disk.read (span.extent drive)).length = span.byteLength := by
    rw [hkept.disk]
    exact hread
  have hback : ∀ report delivered c' k', Moved t (span.extent drive) c₁ k₁ report delivered c' k' →
      Moved t (span.extent drive) c k report delivered c' k' :=
    fun _ _ _ _ hmoved => hmoved.of_kept (carried_of_setting hsetting) hkept
  split
  · rename_i channel hby hchannel
    obtain rfl : channel = fdcChannel := hwired channel hchannel
    have hgate : c₁.shadow.output.gate = true := by
      rw [Controller.shadow_of_setting hsetting]
      exact (hrouted hby).2
    refine (delivers_transferByChannel h₁ hf₁ (by rw [hpath, hby]; rfl) hgate hfits
      (hkept.bounce ▸ hbounce) hread₁).mono hback fun _ _ _ _ => id
  · rename_i hby
    have hport : c.path = .port := by
      cases hpath : c.path with
      | port => rfl
      | channel =>
        obtain ⟨channel, hchannel⟩ := Option.isSome_iff_exists.mp (hrouted hpath).1
        exact absurd hchannel (hby channel hpath)
    exact (delivers_transferByPort h₁ hf₁ (by rw [hpath, hport]; rfl) hfits hread₁).mono hback
      fun _ _ _ _ => id

end Diskette
