import Diskette.Proofs.Ownership.Spurious
import Diskette.Proofs.Passage
import Diskette.Proofs.Payload.Relay
import Diskette.Proofs.Simulated.Channel

/-!
A payload arrives as it was sent. What a report says has been transferred is what has gone over on the way of the
command, byte for byte, and what lies behind it in the buffer of the caller is left alone.
-/
namespace Diskette

variable {σ α : Type} {follows : σ → (call : Platform.Call) → Platform.Reply call → σ → Prop}
  {bounce : σ → List UInt8} {s s' : σ} {p : Routine α} {a : α} {ms : List (Moment Platform σ)}
  {c c' : Controller} {command : Command} {t : Transfer} {n : Nat} {status : List UInt8}

/-- A bounce buffer that keeps its size, that is read and written from its front, and that no device writes to while a
channel is set up. -/
structure Buffered (follows : σ → (call : Platform.Call) → Platform.Reply call → σ → Prop)
    (bounce : σ → List UInt8) : Prop where
  size : ∀ {s n s'}, follows s (.memory .bounceSize) n s' → n = (bounce s).length
  length_eq : ∀ {s call r s'}, follows s call r s' → (bounce s').length = (bounce s).length
  fetch : ∀ {s n bytes s'}, follows s (.memory (.fetch n)) bytes s' → n ≤ (bounce s).length →
    bytes.toList = (bounce s).take n
  store : ∀ {s bytes r s'}, follows s (.memory (.store bytes)) r s' → bytes.length ≤ (bounce s).length →
    bounce s' = bytes ++ (bounce s).drop bytes.length
  still : ∀ {s call r s'}, call.Still → follows s call r s' → bounce s' = bounce s

namespace Buffered

theorem length_passage (hbuffer : Buffered follows bounce) (h : Passage follows p s ms a s') :
    ∀ m ∈ ms, (bounce m.state).length = (bounce s).length := by
  induction h with
  | done => simp
  | call hfollows _ ih =>
    intro m hm
    rcases List.mem_cons.mp hm with rfl | hm
    · rfl
    · exact (ih m hm).trans (hbuffer.length_eq hfollows)

/-- Nothing moves before the channel is unmasked. -/
theorem settled (hbuffer : Buffered follows bounce) {inside later : List (Moment Platform σ)}
    {last : Moment Platform σ} (h : Passage follows p s (inside ++ last :: later) a s')
    (hinside : ∀ m ∈ inside, m.exchange.call.Still) : bounce last.state = bounce s := by
  induction inside generalizing p s with
  | nil =>
    cases h with
    | call => rfl
  | cons m inside ih =>
    cases h with
    | call hfollows hrest =>
      have hlater := ih hrest fun m' hm' => hinside m' (List.mem_cons_of_mem _ hm')
      exact hlater.trans (hbuffer.still (hinside _ List.mem_cons_self) hfollows)

end Buffered

/-- How so many bytes of a payload have gone over since the window of a command, and what is in the buffer of the
caller then. A channel moves them between its unmasking and the count; they are fetched after the result, or they have
lain in the bounce buffer when the channel was unmasked. The port moves them one after the other before the result, and
there is none of that after a stall. -/
inductive Conveyed (bounce : σ → List UInt8) (c : Controller) (t : Transfer) (n : Nat) (status : List UInt8) :
    (window body : List (Moment Platform σ)) → PayloadBuffer → Prop
  | fetched {window talk count : List (Moment Platform σ)} {fetch : Moment Platform σ} {number : UInt8}
      {left : UInt32} {ranOut : Bool} {bytes : List UInt8} (hbuffer : t.buffer = .destination bytes)
      (hpath : c.path = .channel) (hchannel : c.channel = some number)
      (hunmasked : ∃ m ∈ window, m.exchange.call = .channel number .unmask)
      (hstatus : Traffic c.base (talk.map (·.exchange)) status [])
      (hcounting : count.map (·.exchange) = Channel.counting number left ranOut)
      (hcount : n = Channel.count t.length left ranOut) (hfetch : fetch.exchange.call = .memory (.fetch n))
      (hsize : n ≤ (bounce fetch.state).length) :
      Conveyed bounce c t n status window (talk ++ count ++ [fetch])
        (.destination ((bounce fetch.state).take n ++ bytes.drop n))
  | stored {window talk count : List (Moment Platform σ)} {number : UInt8} {left : UInt32} {ranOut : Bool}
      {source : List UInt8} (hbuffer : t.buffer = .source source) (hpath : c.path = .channel)
      (hchannel : c.channel = some number) (hunmasked : ∃ m ∈ window, m.exchange.call = .channel number .unmask)
      (hfilled : ∀ m ∈ window, m.exchange.call = .channel number .unmask →
        (bounce m.state).take t.length = source.take t.length)
      (hstatus : Traffic c.base (talk.map (·.exchange)) status [])
      (hcounting : count.map (·.exchange) = Channel.counting number left ranOut)
      (hcount : n = Channel.count t.length left ranOut) :
      Conveyed bounce c t n status window (talk ++ count) (.source source)
  | read {window body : List (Moment Platform σ)} {payload bytes : List UInt8} (hbuffer : t.buffer = .destination bytes)
      (hwindow : ∀ m ∈ window, ¬m.exchange.call.Arms)
      (hbody : Traffic c.base (body.map (·.exchange)) (payload ++ status) []) (hlength : payload.length = n)
      (hstalled : n < t.length → status = []) :
      Conveyed bounce c t n status window body (.destination (payload ++ bytes.drop n))
  | written {window body : List (Moment Platform σ)} {source : List UInt8} (hbuffer : t.buffer = .source source)
      (hwindow : ∀ m ∈ window, ¬m.exchange.call.Arms)
      (hbody : Traffic c.base (body.map (·.exchange)) status (source.take n)) (hstalled : n < t.length → status = []) :
      Conveyed bounce c t n status window body (.source source)

/-- In one window a command is written to its end; after it a payload is conveyed, and then that is told. No channel
is armed before or after. -/
def Delivered (bounce : σ → List UInt8) (c : Controller) (command : Command) (t : Transfer) (n : Nat)
    (status : List UInt8) (told : Log.Event) (buffer : PayloadBuffer) (ms : List (Moment Platform σ)) : Prop :=
  ∃ before window body last after, ms = before ++ window ++ body ++ last :: after ∧
    (∀ m ∈ before ++ body ++ last :: after, ¬m.exchange.call.Arms) ∧ t.length ≤ t.buffer.bytes.length ∧
    Traffic c.base (window.map (·.exchange)) [] (command.bytes c.drive c.recording) ∧
    Conveyed bounce c t n status window body buffer ∧ last.exchange = ⟨.log c.base told, ()⟩

/-- A command that has found room for its payload in the bounce buffer finds it there until it ends. -/
theorem Buffered.roomy (hbuffer : Buffered follows bounce) (h : Passage follows p s ms a s')
    {lead : List (Moment Platform σ)}
    (hroom : Roomy c t (lead.map (·.exchange))) (hlead : ∀ m ∈ lead, m ∈ ms) :
    ∀ m ∈ ms, t.length ≤ (bounce m.state).length := by
  obtain ⟨-, capacity, hcapacity, hlength⟩ := hroom
  obtain ⟨asked, hasked, hexchange⟩ := List.mem_map.mp hcapacity
  obtain ⟨before, after, rfl⟩ := List.append_of_mem (hlead asked hasked)
  obtain ⟨_, _, hfollows, -⟩ := h.moment
  rw [hexchange] at hfollows
  intro m hm
  calc t.length ≤ capacity := hlength
    _ = (bounce asked.state).length := hbuffer.size hfollows
    _ = (bounce s).length := hbuffer.length_passage h asked (by simp)
    _ = (bounce m.state).length := (hbuffer.length_passage h m hm).symm

theorem exists_destination (h : t.direction = .toMemory) : ∃ bytes, t.buffer = .destination bytes := by
  unfold Transfer.direction at h
  cases hbuffer : t.buffer with
  | destination bytes => exact ⟨bytes, rfl⟩
  | source => simp [hbuffer, PayloadBuffer.direction] at h

theorem Unmasked.exists_moment {number : UInt8} {window : List (Moment Platform σ)}
    (h : Unmasked number (window.map (·.exchange))) :
    ∃ still unmask later, window = still ++ unmask :: later ∧ unmask.exchange.call = .channel number .unmask ∧
      (∀ m ∈ still, m.exchange.call.Still) ∧ ∀ m ∈ later, m.exchange.call ≠ .channel number .unmask := by
  obtain ⟨still, later, hsplit, hstill, hlater⟩ := h
  obtain ⟨stills, unmask, laters, rfl, rfl, hunmask, rfl⟩ := exists_moment_of_map hsplit
  exact ⟨stills, unmask, laters, rfl, congrArg Exchange.call hunmask, fun m hm => hstill _ (List.mem_map_of_mem hm),
    fun m hm => hlater _ (List.mem_map_of_mem hm)⟩

/-- What has been put into the bounce buffer before a command is there when the channel is unmasked. -/
theorem Buffered.filled (hbuffer : Buffered follows bounce) {number : UInt8} {address : UInt32} {source : List UInt8}
    {lead : History Platform} {before window after : List (Moment Platform σ)}
    (h : Passage follows p s (before ++ window ++ after) a s')
    (hlead : before.map (·.exchange) =
      lead ++ [⟨.memory (.store (source.take t.length)), ()⟩, ⟨.memory .bounceAddress, address⟩])
    (hunmasked : Unmasked number (window.map (·.exchange))) (hsource : t.length ≤ source.length)
    (hsize : ∀ m ∈ before, t.length ≤ (bounce m.state).length) :
    ∀ m ∈ window, m.exchange.call = .channel number .unmask →
      (bounce m.state).take t.length = source.take t.length := by
  obtain ⟨still, unmask, later, rfl, -, hstill, hlater⟩ := hunmasked.exists_moment
  obtain ⟨leads, store, rest, rfl, rfl, hstore, hrest⟩ := exists_moment_of_map hlead
  obtain ⟨ask, rest, rfl, hask, hrest⟩ := List.map_eq_cons_iff.mp hrest
  obtain rfl := List.map_eq_nil_iff.mp hrest
  have hrun : Passage follows p s (leads ++ store :: ((ask :: still) ++ unmask :: (later ++ after))) a s' := by
    simpa using h
  obtain ⟨q, s₁, hfollows, hrun⟩ := hrun.moment
  rw [hstore] at hfollows
  have hwhole : (source.take t.length).length = t.length := by
    rw [List.length_take]
    omega
  have hfilled := hbuffer.store hfollows (hwhole.symm ▸ hsize store (by simp))
  have hunmask : bounce unmask.state = bounce s₁ := by
    refine hbuffer.settled hrun fun m hm => ?_
    rcases List.mem_cons.mp hm with rfl | hm
    · rw [hask]
      trivial
    · exact hstill m hm
  intro m hm hcall
  obtain rfl : m = unmask := by
    rcases List.mem_append.mp hm with hm | hm
    · have hcalm := hstill m hm
      rw [hcall] at hcalm
      exact absurd rfl hcalm
    · rcases List.mem_cons.mp hm with rfl | hm
      · rfl
      · exact absurd hcall (hlater m hm)
  rw [hunmask, hfilled]
  exact List.take_left' hwhole

/-- What has been relayed by the record has been conveyed by the buffer. -/
theorem Buffered.conveyed (hbuffer : Buffered follows bounce) {before window body after : List (Moment Platform σ)}
    {payload : List UInt8} (h : Passage follows p s (before ++ window ++ body ++ after) a s')
    (hroom : Roomy c t (before.map (·.exchange))) (hlength : t.length ≤ t.buffer.bytes.length) (hn : n ≤ t.length)
    (hrelayed : Relayed c t n status (before.map (·.exchange)) (window.map (·.exchange)) (body.map (·.exchange))
      payload) :
    Conveyed bounce c t n status window body (t.buffer.receive payload) := by
  have hsize := hbuffer.roomy h hroom fun m hm => by simp [hm]
  generalize hbefore : before.map (·.exchange) = lead at hrelayed
  generalize hwindow : window.map (·.exchange) = sent at hrelayed
  generalize hbody : body.map (·.exchange) = relayed at hrelayed
  cases hrelayed with
  | fetched hpath hchannel hdirection hunmasked hstatus hcount =>
    obtain ⟨bytes, hdestination⟩ := exists_destination hdirection
    rw [← hwindow] at hunmasked
    obtain ⟨still, unmask, later, rfl, hunmask, -, -⟩ := hunmasked.exists_moment
    obtain ⟨most, fetch, rest, rfl, hmost, hfetch, hrest⟩ := exists_moment_of_map hbody
    obtain ⟨talk, count, rfl, rfl, hcounting⟩ := List.map_eq_append_iff.mp hmost
    obtain rfl := List.map_eq_nil_iff.mp hrest
    have hrun : Passage follows p s
        ((before ++ (still ++ unmask :: later) ++ (talk ++ count)) ++ fetch :: after) a s' := by simpa using h
    obtain ⟨_, _, hfollows, -⟩ := hrun.moment
    rw [hfetch] at hfollows
    have hfits : n ≤ (bounce fetch.state).length := hn.trans (hsize fetch (by simp))
    rw [hdestination, PayloadBuffer.receive, Vector.length_toList, hbuffer.fetch hfollows hfits]
    exact .fetched hdestination hpath hchannel ⟨unmask, by simp, hunmask⟩ hstatus hcounting hcount
      (congrArg Exchange.call hfetch) hfits
  | stored hpath hchannel hsource hunmasked hstatus hcount =>
    obtain ⟨talk, count, rfl, rfl, hcounting⟩ := List.map_eq_append_iff.mp hbody
    rw [← hwindow] at hunmasked
    rw [hsource] at hlength ⊢
    have hrun : Passage follows p s (before ++ window ++ (talk ++ count ++ after)) a s' := by simpa using h
    have hfilled := hbuffer.filled hrun hbefore hunmasked hlength fun m hm => hsize m (by simp [hm])
    obtain ⟨still, unmask, later, rfl, hunmask, -, -⟩ := hunmasked.exists_moment
    exact .stored hsource hpath hchannel ⟨unmask, by simp, hunmask⟩ hfilled hstatus hcounting hcount
  | read hdirection hunarmed hread hcount hstalled =>
    obtain ⟨bytes, hdestination⟩ := exists_destination hdirection
    rw [hdestination, PayloadBuffer.receive, hcount]
    refine .read hdestination (fun m hm => ?_) (hbody ▸ hread) hcount hstalled
    exact not_arms_of_unarmed (hunarmed _ (hwindow ▸ List.mem_map_of_mem hm))
  | written hsource hunarmed hwritten hstalled =>
    rw [hsource]
    refine .written hsource (fun m hm => ?_) (hbody ▸ hwritten) hstalled
    exact not_arms_of_unarmed (hunarmed _ (hwindow ▸ List.mem_map_of_mem hm))

theorem Buffered.delivered (hbuffer : Buffered follows bounce) {taken : List UInt8} {told : Log.Event}
    {u v : History Platform} (h : Passage follows p s ms a s') (hms : ms.map (·.exchange) = u ++ v) (hn : n ≤ t.length)
    (htold : PassedTold c command t n status taken told u) (hv : ∀ e ∈ v, Unarmed c.channel e.call) :
    Delivered bounce c command t n status told (t.buffer.receive taken) ms := by
  obtain ⟨_, rfl, lead, sent, relayed, payload, rfl, hroom, hlength, hunarmed, htraffic, hrelayed, htaken⟩ := htold
  obtain ⟨most, after, rfl, hmost, rfl⟩ := List.map_eq_append_iff.mp hms
  obtain ⟨sofar, last, rest, rfl, hsofar, hlast, hrest⟩ := exists_moment_of_map hmost
  obtain rfl := List.map_eq_nil_iff.mp hrest
  obtain ⟨ready, body, rfl, hready, rfl⟩ := List.map_eq_append_iff.mp hsofar
  obtain ⟨before, window, rfl, rfl, rfl⟩ := List.map_eq_append_iff.mp hready
  have hrun : Passage follows p s (before ++ window ++ body ++ last :: after) a s' := by simpa using h
  have helsewhere : ∀ m ∈ before ++ body ++ last :: after, Unarmed c.channel m.exchange.call := by
    intro m hm
    simp only [List.mem_append, List.mem_cons] at hm
    rcases hm with (hm | hm) | rfl | hm
    · exact hroom.unarmed _ (List.mem_map_of_mem hm)
    · exact hunarmed _ (List.mem_map_of_mem hm)
    · rw [hlast]
      trivial
    · exact hv _ (List.mem_map_of_mem hm)
  rw [htaken]
  exact ⟨before, window, body, last, after, by simp, fun m hm => not_arms_of_unarmed (helsewhere m hm), hlength,
    htraffic, hbuffer.conveyed hrun hroom hlength hn hrelayed, hlast⟩

theorem PayloadBuffer.drop_receive (buffer : PayloadBuffer) {taken : List UInt8} {length : Nat}
    (h : taken.length ≤ length) : (buffer.receive taken).bytes.drop length = buffer.bytes.drop length := by
  cases buffer with
  | source => rfl
  | destination bytes =>
    change (taken ++ bytes.drop taken.length).drop length = bytes.drop length
    rw [List.drop_append, List.drop_of_length_le h, List.nil_append, List.drop_drop]
    congr 1
    omega

namespace Simulated

open InterruptUnit (Stirs)

variable {m m' : Simulated}

def bounceBytes (m : Simulated) : List UInt8 := m.interrupts.memory.bounce.toList

theorem size_of_stirs {u v : InterruptUnit} (h : u.Stirs v) : v.memory.bounce.size = u.memory.bounce.size :=
  h.invariant (K := fun v => v.memory.bounce.size = u.memory.bounce.size) (fun _ _ hv => hv)
    (fun v irq hv => (congrArg Array.size (Core.keepsBounce_deliverLine v irq).2).trans hv)
    (fun _ _ _ hsize hv => hsize.trans hv) rfl

theorem size_step (m : Simulated) (call : Platform.Call) :
    (m.step call).2.interrupts.memory.bounce.size = m.interrupts.memory.bounce.size := by
  cases call with
  | input port => exact size_of_stirs (reacts_input m port).interrupts
  | output port value => exact size_of_stirs (reacts_output m port value).interrupts
  | unmaskLine irq => exact size_of_stirs (u := m.interrupts.unmask irq) (.deliver .refl)
  | resume wasEnabled =>
    cases wasEnabled with
    | false => rfl
    | true => exact size_of_stirs (u := { m.interrupts with enabled := true }) (.deliver .refl)
  | memory call =>
    cases call with
    | store bytes => exact Memory.size_write ..
    | _ => rfl
  | _ => rfl

theorem bounce_of_spurious (h : Spurious m m') : m'.bounceBytes = m.bounceBytes := by
  obtain ⟨irqs, rfl⟩ := h
  change (irqs.foldl (fun u irq => (u.raise irq).deliver) m.interrupts).memory.bounce.toList = m.bounceBytes
  unfold bounceBytes
  congr 1
  generalize m.interrupts = u
  induction irqs generalizing u with
  | nil => rfl
  | cons irq irqs ih => exact (ih _).trans (Core.keepsBounce_deliver (u.raise irq)).2

/-- The bounce buffer of the simulated machine, whatever fires for no reason. -/
theorem buffered : Buffered guarded.follows bounceBytes where
  size := by
    rintro m n m' ⟨m₁, hstep, -⟩
    have hreply : m.interrupts.memory.bounce.size = n := congrArg Prod.fst hstep
    rw [← hreply, bounceBytes, Array.length_toList]
  length_eq := by
    rintro m call r m' ⟨m₁, hstep, hspurious⟩
    have hnext : (m.step call).2 = m₁ := congrArg Prod.snd hstep
    rw [bounce_of_spurious hspurious, ← hnext, bounceBytes, bounceBytes, Array.length_toList, Array.length_toList]
    exact m.size_step call
  fetch := by
    rintro m n bytes m' ⟨m₁, hstep, -⟩ hn
    have hreply : (Vector.ofFn fun i : Fin n => m.interrupts.memory.bounce.getD i.val 0) = bytes :=
      congrArg Prod.fst hstep
    rw [bounceBytes, Array.length_toList] at hn
    rw [← hreply]
    exact toList_ofFn_getD hn
  store := by
    rintro m bytes r m' ⟨m₁, hstep, hspurious⟩ hfits
    have hnext : (m.step (.memory (.store bytes))).2 = m₁ := congrArg Prod.snd hstep
    rw [bounceBytes, Array.length_toList] at hfits
    rw [bounce_of_spurious hspurious, ← hnext]
    exact Memory.toList_write m.interrupts.memory hfits
  still := by
    rintro m call r m' hcall ⟨m₁, hstep, hspurious⟩
    have hnext : (m.step call).2 = m₁ := congrArg Prod.snd hstep
    have hsame : (m.step call).2.bounceBytes = m.bounceBytes := by
      cases call with
      | suppress | channel => rfl
      | memory call =>
        cases call with
        | bounceAddress => rfl
        | _ => exact hcall.elim
      | _ => exact hcall.elim
    rw [bounce_of_spurious hspurious, ← hnext, hsame]

end Simulated

/-- A report says that all of a payload has been transferred, and it has; a short transfer says how much of it has. No
byte of the buffer behind the payload has changed in any case. -/
theorem payload_delivered (hbuffer : Buffered follows bounce) {outcome : Except Failure Report} {buffer : PayloadBuffer}
    (h : Passage follows ((Operation.executeWith command t).run c) s ms ((outcome, buffer), c') s') :
    (∀ report, outcome = .ok report → report.transferred = t.length ∧ ∃ span,
      command.transfer? = some (span, t.direction) ∧
        Delivered bounce c command t t.length report.result (.moved t.length t.direction span) buffer ms) ∧
    (∀ expected actual, outcome = .error (.shortTransfer expected actual) →
      expected = t.length ∧ actual < t.length ∧ ∃ status,
        Delivered bounce c command t actual status (.failed command (.shortTransfer expected actual)) buffer ms) ∧
    buffer.direction = t.direction ∧ buffer.bytes.drop t.length = t.buffer.bytes.drop t.length := by
  have hrun : Operation.Ensures recorded (Operation.executeWith command t) (fun r _ h => ∃ taken,
      r.2 = t.buffer.receive taken ∧ Outcome c command t r.1 taken h) c [] := by
    unfold Operation.executeWith
    rw [Operation.ensures_bind]
    exact ensures_perform_passed.mono fun r _ _ hr => ⟨r.2, rfl, hr⟩
  obtain ⟨taken, rfl, houtcome⟩ := h.execution.recorded hrun
  refine ⟨fun report hok => ?_, fun expected actual hshort => ?_, ?_, ?_⟩
  · obtain ⟨htransferred, span, hdata, u, v, hsplit, htold, hv⟩ := houtcome.whole report hok
    exact ⟨htransferred, span, hdata, hbuffer.delivered h hsplit (Nat.le_refl _) htold hv⟩
  · obtain ⟨hexpected, hactual, status, u, v, hsplit, htold, hv⟩ := houtcome.cut expected actual hshort
    exact ⟨hexpected, hactual, status, hbuffer.delivered h hsplit hactual.le htold hv⟩
  · unfold Transfer.direction
    cases t.buffer <;> rfl
  · exact t.buffer.drop_receive houtcome.taken_le

/-- The device gives up after a hundred bytes of a sector and reports nothing of it, after spurious interrupts. -/
theorem payload_delivered_short :
    let session := Session.acts Simulated.machine 0x3F0 { machine := {} } [.discover (some 6) (some 2)]
    let m := { session.machine with faults := { channelLimit := some 100 } }
    let t := Transfer.read (List.replicate 512 0xAA)
    ∃ c buffer ms c' m' status, session.controller = some c ∧
      Passage Simulated.guarded.follows ((Operation.executeWith (.read ⟨0, 0, 1, 2, 1⟩) t).run c) m ms
        ((.error (.shortTransfer 512 100), buffer), c') m' ∧
      Delivered Simulated.bounceBytes c (.read ⟨0, 0, 1, 2, 1⟩) t 100 status
        (.failed (.read ⟨0, 0, 1, 2, 1⟩) (.shortTransfer 512 100)) buffer ms := by
  intro session m t
  have hfound : session.controller.any (fun c => (((Operation.executeWith (.read ⟨0, 0, 1, 2, 1⟩) t).run c).run
      Simulated.machine m).1.1.1 == .error (.shortTransfer 512 100)) = true := by decide +kernel
  cases hc : session.controller with
  | none => simp [hc] at hfound
  | some c =>
    rw [hc, Option.any_some] at hfound
    obtain ⟨ms, hpassage⟩ :=
      Simulated.keepsTo_guarded.passage ((Operation.executeWith (.read ⟨0, 0, 1, 2, 1⟩) t).run c) m
    generalize (((Operation.executeWith (.read ⟨0, 0, 1, 2, 1⟩) t).run c).run Simulated.machine m) = r
      at hfound hpassage
    obtain ⟨⟨⟨outcome, buffer⟩, c'⟩, m'⟩ := r
    obtain rfl := eq_of_beq hfound
    obtain ⟨-, hcut, -, -⟩ := payload_delivered Simulated.buffered hpassage
    obtain ⟨-, -, status, hdelivered⟩ := hcut 512 100 rfl
    exact ⟨c, buffer, ms, c', m', status, rfl, hpassage, hdelivered⟩

end Diskette
