import Diskette.Proofs.Simulated.Discovery
import Diskette.Proofs.Simulated.Station

/-!
A driver on a simulated machine is a store of sectors. Whatever it has been asked for, and whichever way
each payload has taken, a sector reads as it was last written.
-/
namespace Diskette

open Simulated
open Diskette.Core (surroundings)

/-- What a caller expects of the disks: what each sector holds, and the drive that is selected. -/
structure Store where
  drive : Drive
  sectors : SectorId → List UInt8

/-- One of so many sectors of a side, counted from the first of them. -/
def Simulated.SectorId.Among (id first : SectorId) (count : Nat) : Prop :=
  id.drive = first.drive ∧ id.cylinder = first.cylinder ∧ id.head = first.head ∧
    first.sector.toNat ≤ id.sector.toNat ∧ id.sector.toNat < first.sector.toNat + count

instance (id first : SectorId) (count : Nat) : Decidable (id.Among first count) :=
  inferInstanceAs (Decidable (_ ∧ _))

namespace Store

def sectorBytes (code : UInt8) : Nat := 128 <<< code.toNat

/-- Nothing has been written yet. -/
def blank (code : UInt8) : Store where
  drive := .a
  sectors _ := List.replicate (sectorBytes code) filler

def read (store : Store) (span : SectorSpan) : List UInt8 :=
  (List.range span.count.toNat).flatMap fun i =>
    store.sectors ⟨store.drive, span.cylinder, span.head, span.sector + UInt8.ofNat i⟩

def write (store : Store) (span : SectorSpan) (bytes : List UInt8) : Store where
  drive := store.drive
  sectors id :=
    if id.Among ⟨store.drive, span.cylinder, span.head, span.sector⟩ span.count.toNat then
      (bytes.drop ((id.sector.toNat - span.sector.toNat) * span.sectorBytes)).take span.sectorBytes
    else store.sectors id

def afterRequest (store : Store) : Request → Store
  | .executeWith command t =>
    match command.transfer? with
    | some (span, .fromMemory) => store.write span (t.buffer.bytes.take t.length)
    | _ => store
  | .selectDrive drive => { store with drive }
  | _ => store

end Store

variable {disk : Disk} {store : Store} {span : SectorSpan} {code : UInt8}

theorem readFrom_eq_flatMap {f : SectorId → List UInt8} {size : Nat}
    (h : ∀ id, disk.sectorAt id size = f id) (count : Nat) (id : SectorId) :
    disk.readFrom size count id = (List.range count).flatMap fun i =>
      f { id with sector := id.sector + UInt8.ofNat i } := by
  induction count generalizing id with
  | zero => rfl
  | succ count ih =>
    have hnext : ∀ i, id.sector + 1 + UInt8.ofNat i = id.sector + UInt8.ofNat (i + 1) := by
      intro i
      rw [UInt8.ofNat_add, UInt8.add_assoc, UInt8.add_comm 1]
      rfl
    rw [List.range_succ_eq_map, List.flatMap_cons, List.flatMap_map, Disk.readFrom, h, ih]
    simp only [hnext]
    simp

theorem toNat_next {id j : SectorId} {count : Nat} (hlast : id.sector.toNat + (count + 1) ≤ 256)
    (h : j.Among { id with sector := id.sector + 1 } count) :
    (id.sector + 1).toNat = id.sector.toNat + 1 := by
  obtain ⟨-, -, -, hle, hlt⟩ := h
  have hone : (1 : UInt8).toNat = 1 := rfl
  rw [UInt8.toNat_add, hone]
  dsimp only at hle hlt
  exact Nat.mod_eq_of_lt (by omega)

theorem among_succ_iff {id j : SectorId} {count : Nat} (hlast : id.sector.toNat + (count + 1) ≤ 256) :
    j.Among id (count + 1) ↔
      j = id ∨ j.Among { id with sector := id.sector + 1 } count := by
  constructor
  · rintro ⟨hdrive, hcylinder, hhead, hle, hlt⟩
    obtain ⟨drive, cylinder, head, sector⟩ := j
    obtain rfl : drive = id.drive := hdrive
    obtain rfl : cylinder = id.cylinder := hcylinder
    obtain rfl : head = id.head := hhead
    rcases Nat.eq_or_lt_of_le hle with heq | hless
    · obtain rfl : id.sector = sector := UInt8.toNat_inj.mp heq
      exact .inl rfl
    · have hone : (1 : UInt8).toNat = 1 := rfl
      have hnext : (id.sector + 1).toNat = id.sector.toNat + 1 := by
        rw [UInt8.toNat_add, hone]
        dsimp only at hlt hless
        exact Nat.mod_eq_of_lt (by omega)
      refine .inr ⟨rfl, rfl, rfl, ?_, ?_⟩ <;> dsimp only at hlt hless ⊢ <;> omega
  · rintro (rfl | h)
    · exact ⟨rfl, rfl, rfl, Nat.le_refl _, by omega⟩
    · have hnext := toNat_next hlast h
      obtain ⟨hdrive, hcylinder, hhead, hle, hlt⟩ := h
      refine ⟨hdrive, hcylinder, hhead, ?_, ?_⟩ <;> dsimp only at hle hlt <;> omega

/-- A run that is written does not wrap around, and each sector gets its own part of the bytes. -/
theorem writeFrom_apply {size : Nat} (hsize : 0 < size) (count : Nat) (id : SectorId)
    {bytes : List UInt8} (hlength : bytes.length = count * size) (hlast : id.sector.toNat + count ≤ 256)
    (j : SectorId) : disk.writeFrom size count id bytes j =
      if j.Among id count then
        some ((bytes.drop ((j.sector.toNat - id.sector.toNat) * size)).take size)
      else disk j := by
  induction count generalizing disk id bytes with
  | zero =>
    rw [if_neg fun h => absurd h.2.2.2 (by omega)]
    rfl
  | succ count ih =>
    rw [Nat.succ_mul] at hlength
    obtain ⟨b, rest, rfl⟩ := List.exists_cons_of_length_pos (l := bytes) (by omega)
    have hrest : ((b :: rest).drop size).length = count * size := by
      rw [List.length_drop]
      omega
    have hput : disk.writeFrom size (count + 1) id (b :: rest) =
        (disk.put id ((b :: rest).take size)).writeFrom size count
          { id with sector := id.sector + 1 } ((b :: rest).drop size) := rfl
    have hlast' : (id.sector + 1).toNat + count ≤ 256 := by
      have hle : (id.sector + 1).toNat ≤ id.sector.toNat + 1 := Nat.mod_le _ _
      omega
    rw [hput, ih { id with sector := id.sector + 1 } hrest hlast']
    generalize b :: rest = bytes
    by_cases hmore : j.Among { id with sector := id.sector + 1 } count
    · have hnext := toNat_next hlast hmore
      have hindex : j.sector.toNat - id.sector.toNat =
          j.sector.toNat - (id.sector + 1).toNat + 1 := by
        have hle := hmore.2.2.2.1
        dsimp only at hle
        omega
      rw [if_pos hmore, if_pos ((among_succ_iff hlast).mpr (.inr hmore)), List.drop_drop, hindex,
        Nat.succ_mul, Nat.add_comm size]
    · rw [if_neg hmore]
      by_cases hfirst : j = id
      · subst hfirst
        rw [if_pos ((among_succ_iff hlast).mpr (.inl rfl)), Nat.sub_self, Nat.zero_mul, List.drop_zero]
        exact if_pos rfl
      · rw [if_neg fun h => ((among_succ_iff hlast).mp h).elim hfirst hmore]
        exact if_neg hfirst

/-- The disks hold what is expected of them. -/
structure Store.On (store : Store) (code : UInt8) (disk : Disk) : Prop where
  holds : ∀ id, disk.sectorAt id (sectorBytes code) = store.sectors id
  length : ∀ id, (store.sectors id).length = sectorBytes code

namespace Store.On

theorem blank (code : UInt8) : (Store.blank code).On code .empty :=
  ⟨fun _ => rfl, fun _ => List.length_replicate⟩

theorem select (h : store.On code disk) (drive : Drive) : { store with drive }.On code disk :=
  ⟨h.holds, h.length⟩

theorem sectorBytes_eq (hvalid : span.validate = .ok ()) (hcode : span.sizeCode = code) :
    span.sectorBytes = sectorBytes code := by
  rw [SectorSpan.sectorBytes_eq_shift hvalid, hcode]
  rfl

theorem read_eq (h : store.On code disk) (hvalid : span.validate = .ok ())
    (hcode : span.sizeCode = code) : disk.read (span.extent store.drive) = store.read span := by
  unfold Disk.read Store.read
  rw [SectorSpan.sectorBytes_extent hvalid, SectorSpan.sectors_extent hvalid,
    sectorBytes_eq hvalid hcode, readFrom_eq_flatMap h.holds]
  rfl

theorem length_read (h : store.On code disk) (hvalid : span.validate = .ok ())
    (hcode : span.sizeCode = code) : (store.read span).length = span.byteLength := by
  unfold Store.read
  rw [SectorSpan.byteLength_eq hvalid, sectorBytes_eq hvalid hcode, List.length_flatMap]
  simp only [h.length, List.map_const', List.sum_replicate_nat, List.length_range]

theorem write (h : store.On code disk) (hvalid : span.validate = .ok ()) (hcode : span.sizeCode = code)
    {bytes : List UInt8} (hlength : bytes.length = span.byteLength) :
    (store.write span bytes).On code (disk.write (span.extent store.drive) bytes) := by
  obtain ⟨-, -, -, -, hlast⟩ := SectorSpan.validate_eq_ok_iff.mp hvalid
  have hsize := sectorBytes_eq hvalid hcode
  have hpos : 0 < sectorBytes code := by
    unfold sectorBytes
    rw [Nat.shiftLeft_eq]
    exact Nat.mul_pos (by decide) (Nat.two_pow_pos _)
  have hbytes : bytes.length = span.count.toNat * sectorBytes code := by
    rw [hlength, SectorSpan.byteLength_eq hvalid, hsize]
  have hrun : span.sector.toNat + span.count.toNat ≤ 256 := by
    unfold SectorSpan.lastSector at hlast
    omega
  have hwrite : ∀ id, disk.write (span.extent store.drive) bytes id =
      if id.Among ⟨store.drive, span.cylinder, span.head, span.sector⟩ span.count.toNat then
        some ((bytes.drop ((id.sector.toNat - span.sector.toNat) * sectorBytes code)).take
          (sectorBytes code))
      else disk id := by
    intro id
    unfold Disk.write
    rw [SectorSpan.sectorBytes_extent hvalid, SectorSpan.sectors_extent hvalid, hsize]
    exact writeFrom_apply hpos _ _ hbytes hrun id
  refine ⟨fun id => ?_, fun id => ?_⟩ <;> unfold Store.write <;> dsimp only <;>
    by_cases hamong : id.Among ⟨store.drive, span.cylinder, span.head, span.sector⟩ span.count.toNat
  · unfold Disk.sectorAt
    rw [hwrite, if_pos hamong, if_pos hamong, hsize]
  · have hold := h.holds id
    unfold Disk.sectorAt at hold ⊢
    rw [hwrite, if_neg hamong, if_neg hamong]
    exact hold
  · rw [if_pos hamong, hsize, List.length_take, List.length_drop, hbytes]
    obtain ⟨-, -, -, hle, hlt⟩ := hamong
    dsimp only at hle hlt
    have hpart : (id.sector.toNat - span.sector.toNat + 1) * sectorBytes code ≤
        span.count.toNat * sectorBytes code := Nat.mul_le_mul_right _ (by omega)
    rw [Nat.succ_mul] at hpart
    omega
  · rw [if_neg hamong]
    exact h.length id

end Store.On

variable {c c' : Controller} {k k' : Core} {command : Command} {t : Transfer} {direction : Direction}
  {s : Station}

/-- The driver is ready, and the disks hold what is expected. -/
structure Stocked (code : UInt8) (store : Store) (c : Controller) (k : Core) : Prop
    extends Ready c k where
  bounce : k.bounce.size = 4096
  drive : c.drive = store.drive
  stored : store.On code k.fdc.disk

/-- A payload goes where it should, or comes from there, and no head moves. -/
theorem ensures_executeWith_stocked (h : Stocked code store c k)
    (hvalid : t.validate command 4096 = .ok ()) (hdata : command.transfer? = some (span, direction))
    (hcode : span.sizeCode = code) :
    Operation.Ensures surroundings (Operation.executeWith command t) (fun r c' k' =>
      (∃ report, r.1 = .ok report ∧ report.transferred = t.length ∧
        match t.buffer with
        | .destination bytes => (store.read span).length = t.length ∧
          r.2 = .destination (store.read span ++ bytes.drop t.length)
        | .source source => r.2 = .source source) ∧
      Stocked code (store.afterRequest (.executeWith command t)) c' k' ∧
      k'.fdc.cylinders = k.fdc.cylinders) c k := by
  obtain ⟨⟨span', hfits⟩, hroom⟩ := Transfer.validate_eq_ok_iff.mp hvalid
  obtain ⟨rfl, rfl⟩ : span = span' ∧ direction = t.direction := by
    simpa [hfits.data, eq_comm] using hdata
  have hspan : span.validate = .ok () := Command.validate_span hfits.data hfits.valid
  have hread : k.fdc.disk.read (span.extent c.drive) = store.read span := by
    rw [h.drive]
    exact h.stored.read_eq hspan hcode
  have hlength : (store.read span).length = span.byteLength := h.stored.length_read hspan hcode
  have hwhole : (k.fdc.disk.read (span.extent c.drive)).length = span.byteLength := by
    rw [hread]
    exact hlength
  refine (ensures_executeWith_simulated h.toReady hfits (h.bounce ▸ hroom) hwhole).mono ?_
  rintro r c' k' ⟨report, hreport, htransferred, hready, hdrive, hcylinders, hbounce, hpayload⟩
  have hdrive' : c'.drive = store.drive := hdrive.trans h.drive
  have hbounce' : k'.bounce.size = 4096 := hbounce.trans h.bounce
  simp only [Store.afterRequest, hfits.data]
  obtain ⟨length, buffer⟩ := t
  cases buffer with
  | destination bytes =>
    obtain ⟨hdisk, hbuffer⟩ := hpayload
    rw [hread] at hbuffer
    exact ⟨⟨report, hreport, htransferred, hlength.trans hfits.length_eq.symm, hbuffer⟩,
      ⟨hready, hbounce', hdrive', hdisk ▸ h.stored⟩, hcylinders⟩
  | source source =>
    obtain ⟨hbuffer, hdisk⟩ := hpayload
    have hlength : (source.take length).length = span.byteLength := by
      rw [List.length_take]
      exact (Nat.min_eq_left hfits.length_le).trans hfits.length_eq
    refine ⟨⟨report, hreport, htransferred, hbuffer⟩, ⟨hready, hbounce', hdrive', ?_⟩, hcylinders⟩
    rw [hdisk, h.drive]
    exact h.stored.write hspan hcode hlength

theorem ensures_request_stocked (h : Stocked code store c k) {request : Request}
    (hvalid : request.Valid code) : Operation.Ensures surroundings request.perform
      (fun _ c' k' => Stocked code (store.afterRequest request) c' k' ∧
        k'.fdc.cylinders = request.headsAfter c.drive k.fdc.cylinders) c k := by
  by_cases hdata : ∃ command t, request = .executeWith command t
  · obtain ⟨command, t, rfl⟩ := hdata
    obtain ⟨hvalid, hcode⟩ := hvalid
    obtain ⟨⟨span, hfits⟩, -⟩ := Transfer.validate_eq_ok_iff.mp hvalid
    apply Operation.ensures_bind.mpr
    apply (ensures_executeWith_stocked h hvalid hfits.data (hcode span _ hfits.data)).mono
    rintro _ c' k' ⟨-, hstocked⟩
    exact hstocked
  · have hplain : ∀ command t, request ≠ .executeWith command t :=
      fun command t he => hdata ⟨command, t, he⟩
    apply (ensures_request_simulated h.toReady hvalid hplain).mono
    rintro _ c' k' ⟨hready, hkept, hdrive⟩
    have hstored : store.On code k'.fdc.disk := hkept.disk ▸ h.stored
    have hbounce : k'.bounce.size = 4096 := hkept.bounce.trans h.bounce
    rw [h.drive] at hdrive
    refine ⟨?_, hkept.cylinders⟩
    cases request with
    | executeWith command t => exact absurd rfl (hplain command t)
    | selectDrive drive => exact ⟨hready, hbounce, hdrive, hstored.select drive⟩
    | _ => exact ⟨hready, hbounce, hdrive, hstored⟩

/-- What may happen to a station: a request, interrupts from outside, or a change of what the machine
does with its own interrupt and with the count of a channel. -/
inductive Use
  | ask (request : Request)
  | fire (irq : UInt8) (count : Nat)
  | switch (silent reloadCount : Bool)

def Use.Valid (code : UInt8) : Use → Prop
  | .ask request => request.Valid code
  | _ => True

def Station.use (s : Station) : Use → Station
  | .ask request => (s.perform request.perform).2
  | .fire irq count => { s with machine := s.machine.unit (·.fire irq count) }
  | .switch silent reloadCount =>
    { s with machine := { s.machine with faults := { s.machine.faults with silent, reloadCount } } }

def Store.after (store : Store) : Use → Store
  | .ask request => store.afterRequest request
  | _ => store

theorem Stocked.use (h : Stocked code store s.controller s.machine.core) {u : Use}
    (hvalid : u.Valid code) :
    Stocked code (store.after u) (s.use u).controller (s.use u).machine.core := by
  cases u with
  | ask request => exact (Station.perform_of_ensures (ensures_request_stocked h hvalid)).1
  | fire irq count =>
    have hcore : (s.machine.unit (·.fire irq count)).core = s.machine.core := Core.core_fire irq count
    exact hcore.symm ▸ h
  | switch silent reloadCount =>
    exact ⟨⟨⟨⟨⟨h.present, h.base_eq, h.room⟩, h.output_eq, h.outOfReset⟩, h.whole, h.command, h.quiet,
      h.told⟩, ⟨h.harmless.commandLimit, h.harmless.withholdResults, h.harmless.channelLimit,
        h.harmless.portLimit, h.harmless.verdict⟩, h.routed, h.wired⟩, h.bounce, h.drive, h.stored⟩

theorem Stocked.uses (h : Stocked code store s.controller s.machine.core) {uses : List Use}
    (hvalid : ∀ u ∈ uses, u.Valid code) :
    Stocked code (uses.foldl Store.after store) (uses.foldl Station.use s).controller
      (uses.foldl Station.use s).machine.core := by
  induction uses generalizing s store with
  | nil => exact h
  | cons u uses ih =>
    exact ih (h.use (hvalid u List.mem_cons_self)) fun v hv => hvalid v (List.mem_cons_of_mem u hv)

theorem stocked_of_found {irq channel : Option UInt8} (code : UInt8)
    (hchannel : channel = some fdcChannel ∨ channel.filter Placement.usableChannel = none)
    (hfound : Found ⟨0x3F0, irq, channel⟩ ({} : Simulated).core c k) :
    Stocked code (.blank code) c k := by
  refine ⟨⟨hfound.settled rfl, ?_, hfound.routed, ?_⟩, hfound.kept.bounce.trans Array.size_replicate, hfound.drive, ?_⟩
  · rw [hfound.kept.faults]
    exact ⟨rfl, rfl, rfl, rfl, rfl⟩
  · intro accepted haccepted
    rw [hfound.channel] at haccepted
    dsimp only at haccepted
    rcases hchannel with rfl | hnone
    · exact (Option.some.inj haccepted).symm
    · exact absurd (hnone.symm.trans haccepted) nofun
  · rw [hfound.kept.disk]
    exact .blank code

/-- A driver that has been discovered on a fresh machine stays a store of sectors. After whatever
uses, a valid command comes to its end, a data command moves all of its payload, and what is read is for
each sector what has been written to it last. -/
theorem sector_store (irq channel : Option UInt8)
    (hchannel : channel = some fdcChannel ∨ channel.filter Placement.usableChannel = none) :
    ∃ c m, (Controller.discover ⟨0x3F0, irq, channel⟩).run Simulated.machine {} = (some c, m) ∧
      ∀ code (uses : List Use), (∀ u ∈ uses, u.Valid code) →
        let s := uses.foldl Station.use ⟨c, m⟩
        let store := uses.foldl Store.after (.blank code)
        (∀ command, command.validate = .ok () → command.transfer? = none →
          ∃ report, (s.perform (Operation.execute command)).1 = .ok report) ∧
        ∀ command t span direction, t.validate command 4096 = .ok () →
          command.transfer? = some (span, direction) → span.sizeCode = code →
          ∃ report buffer, (s.perform (Operation.executeWith command t)).1 = (.ok report, buffer) ∧
            report.transferred = t.length ∧
            match t.buffer with
            | .destination bytes => (store.read span).length = t.length ∧
              buffer = .destination (store.read span ++ bytes.drop t.length)
            | .source source => buffer = .source source := by
  obtain ⟨c, m, hrun, hfound⟩ := discover_fresh irq channel
  refine ⟨c, m, hrun, fun code uses huses => ?_⟩
  have hstart : Stocked code (.blank code) c m.core := stocked_of_found code hchannel hfound
  have hstocked := Stocked.uses (s := ⟨c, m⟩) hstart huses
  refine ⟨fun command hvalid hdata => ?_, fun command t span direction hvalid hdata hcode => ?_⟩
  · obtain ⟨report, hreport, -⟩ :=
      Station.perform_of_ensures (ensures_execute_simulated hstocked.toSettled.sound
        hstocked.harmless hvalid hdata)
    exact ⟨report, hreport⟩
  · obtain ⟨⟨report, hreport, htransferred, hbuffer⟩, -⟩ :=
      Station.perform_of_ensures (ensures_executeWith_stocked hstocked hvalid hdata hcode)
    exact ⟨report, _, Prod.ext hreport rfl, htransferred, hbuffer⟩

/-- A sector written by DMA is read through the data port, along with one that was never written. -/
theorem sector_store_mixed :
    let uses := [Use.ask (.executeWith (.write ⟨3, 0, 1, 0, 1⟩) (.write (List.replicate 128 7))),
      .fire 6 5, .ask .disableDma, .switch true true]
    (∀ u ∈ uses, u.Valid 0) ∧ ∃ c m report,
      (Controller.discover ⟨0x3F0, some 6, some 2⟩).run Simulated.machine {} = (some c, m) ∧
        ((uses.foldl Station.use ⟨c, m⟩).perform
          (Operation.executeWith (.read ⟨3, 0, 1, 0, 2⟩) (.read (List.replicate 256 0)))).1 =
            (.ok report, .destination (List.replicate 128 7 ++ List.replicate 128 filler)) := by
  intro uses
  have huses : ∀ u ∈ uses, u.Valid 0 := by
    intro u hu
    simp only [uses, List.mem_cons, List.not_mem_nil, or_false] at hu
    rcases hu with rfl | rfl | rfl | rfl
    · refine ⟨Transfer.validate_eq_ok_iff.mpr ⟨⟨⟨3, 0, 1, 0, 1⟩, rfl, rfl, ?_, Nat.le_refl _⟩, ?_⟩,
        fun span direction hdata => ?_⟩
      · exact List.length_replicate
      · simp [Transfer.write]
      · obtain ⟨rfl, -⟩ : _ = span ∧ _ := by simpa [Command.transfer?] using hdata
        rfl
    all_goals trivial
  obtain ⟨c, m, hrun, hstore⟩ := sector_store (some 6) (some 2) (.inl rfl)
  obtain ⟨-, hread⟩ := hstore 0 uses huses
  have hroom : (Transfer.read (List.replicate 256 0)).length ≤ 4096 := by
    dsimp only [Transfer.read]
    rw [List.length_replicate]
    decide
  have hvalid : (Transfer.read (List.replicate 256 0)).validate (.read ⟨3, 0, 1, 0, 2⟩) 4096 = .ok () :=
    Transfer.validate_eq_ok_iff.mpr ⟨⟨⟨3, 0, 1, 0, 2⟩, rfl, rfl, List.length_replicate, Nat.le_refl _⟩,
      hroom⟩
  obtain ⟨report, buffer, hresult, -, -, hbuffer⟩ := hread _ _ _ .toMemory hvalid rfl rfl
  have hcontents : (uses.foldl Store.after (.blank 0)).read ⟨3, 0, 1, 0, 2⟩ ++
      (List.replicate 256 0).drop (List.replicate 256 (0 : UInt8)).length =
        List.replicate 128 7 ++ List.replicate 128 filler := by
    decide +kernel
  have hfilled : buffer = .destination (List.replicate 128 7 ++ List.replicate 128 filler) :=
    hbuffer.trans (congrArg PayloadBuffer.destination hcontents)
  exact ⟨huses, c, m, report, hrun, hresult.trans (by rw [hfilled])⟩

end Diskette
