import Diskette.Proofs.Conduct.Calm
import Diskette.Proofs.Execution

/-!
What goes over the data port in a run: the bytes that are read from it, and the bytes that are written to it.
Each routine on the port has gone as far as these say.
-/
namespace Diskette

variable {base : UInt16} {α : Type} {t u : History Platform} {p : Routine α} {a : α} {bytes : List UInt8}

/-- The bytes that a history has read from the data port. -/
def bytesRead (base : UInt16) : History Platform → List UInt8 :=
  List.filterMap fun
    | ⟨.input port, byte⟩ => if port = Port.data base then some byte else none
    | _ => none

/-- The bytes that a history has written to the data port. -/
def bytesWritten (base : UInt16) : History Platform → List UInt8 :=
  List.filterMap fun e => match e.call with
    | .output port value => if port = Port.data base then some value else none
    | _ => none

/-- Calls on the data port. -/
def OnPort (base : UInt16) : Platform.Call → Prop
  | .input port | .output port _ => port = Port.data base
  | _ => False

structure Traffic (base : UInt16) (t : History Platform) (read written : List UInt8) : Prop where
  read_eq : bytesRead base t = read
  written_eq : bytesWritten base t = written

theorem not_onPort_of_looks {call : Platform.Call} (h : Fifo.Looks base call) : ¬OnPort base call := by
  cases call with
  | input port =>
    have hport : port = Port.mainStatus base := h
    simp [OnPort, hport, Port.mainStatus, Port.data]
  | delay => exact id
  | _ => exact h.elim

namespace Traffic

variable {read written read' written' : List UInt8}

theorem nil : Traffic base [] [] [] := ⟨rfl, rfl⟩

theorem append (h : Traffic base t read written) (h' : Traffic base u read' written') :
    Traffic base (t ++ u) (read ++ read') (written ++ written') := by
  constructor
  · rw [← h.read_eq, ← h'.read_eq]
    exact List.filterMap_append
  · rw [← h.written_eq, ← h'.written_eq]
    exact List.filterMap_append

theorem of_silent (h : ∀ e ∈ t, ¬OnPort base e.call) : Traffic base t [] [] := by
  constructor
  · refine List.filterMap_eq_nil_iff.mpr fun e he => ?_
    have hsilent := h e he
    obtain ⟨call, reply⟩ := e
    cases call <;> first | rfl | exact if_neg hsilent
  · refine List.filterMap_eq_nil_iff.mpr fun e he => ?_
    have hsilent := h e he
    obtain ⟨call, reply⟩ := e
    cases call <;> first | rfl | exact if_neg hsilent

theorem quiet {φ : Platform.Call → Prop} (h : Execution p t a) (hp : p.Only φ)
    (hφ : ∀ call, φ call → ¬OnPort base call) : Traffic base t [] [] :=
  of_silent fun e he => hφ _ (hp.execution h e he)

theorem looks (h : Execution p t a) (hp : p.Only (Fifo.Looks base)) : Traffic base t [] [] :=
  quiet h hp fun _ => not_onPort_of_looks

theorem uninterrupted (h : Execution (Platform.uninterrupted p) t a) :
    ∃ u, Execution p u a ∧ ∀ {base read written}, Traffic base u read written → Traffic base t read written := by
  obtain ⟨wasEnabled, u, rfl, hu⟩ := h.of_uninterrupted
  refine ⟨u, hu, fun {base _ _} htraffic => ?_⟩
  have hopen : Traffic base [⟨.suppress, wasEnabled⟩] [] [] := ⟨rfl, rfl⟩
  have hclose : Traffic base [⟨.resume wasEnabled, ()⟩] [] [] := ⟨rfl, rfl⟩
  simpa using (hopen.append htraffic).append hclose

end Traffic

theorem traffic_input {byte : UInt8} (h : Execution (Platform.input (Port.data base)) t byte) :
    Traffic base t [byte] [] := by
  cases h with
  | call h =>
    obtain ⟨rfl, rfl⟩ := Execution.of_done h
    exact ⟨by simp [bytesRead], rfl⟩

theorem traffic_output {byte : UInt8} (h : Execution (Platform.output (Port.data base) byte) t ()) :
    Traffic base t [] [byte] := by
  cases h with
  | call h =>
    obtain ⟨rfl, -⟩ := Execution.of_done h
    exact ⟨rfl, by simp [bytesWritten]⟩

namespace Fifo

/-- A command is written to its end, or up to the byte that is not taken. -/
theorem traffic_sendFrom {total sent : Nat} {r : Except Failure Unit}
    (h : Execution (sendFrom base total bytes sent) t r) :
    ∃ k, Traffic base t [] (bytes.take k) ∧
      (k = bytes.length ∧ r = .ok () ∨ k < bytes.length ∧ r = .error (.writeTimeout (sent + k) total)) := by
  induction bytes generalizing sent t with
  | nil =>
    obtain ⟨rfl, rfl⟩ := Execution.of_done h
    exact ⟨0, .nil, .inl ⟨rfl, rfl⟩⟩
  | cons b rest ih =>
    obtain ⟨t₁, t₂, takes, rfl, hlook, h⟩ := Execution.of_bind h
    have hquiet : Traffic base t₁ [] [] := .looks hlook only_writable
    cases takes with
    | false =>
      obtain ⟨rfl, rfl⟩ := Execution.of_done h
      exact ⟨0, by simpa using hquiet, .inr ⟨Nat.succ_pos _, rfl⟩⟩
    | true =>
      obtain ⟨t₃, t₄, ⟨⟩, rfl, hwrite, h⟩ := Execution.of_bind h
      obtain ⟨k, hrest, hend⟩ := ih h
      refine ⟨k + 1, hquiet.append ((traffic_output hwrite).append hrest), ?_⟩
      rcases hend with ⟨rfl, rfl⟩ | ⟨hk, rfl⟩
      · exact .inl ⟨rfl, rfl⟩
      · refine .inr ⟨Nat.succ_lt_succ hk, ?_⟩
        rw [Nat.add_right_comm, Nat.add_assoc]

theorem traffic_send {r : Except Failure Unit} (h : Execution (send base bytes) t r) :
    ∃ k, Traffic base t [] (bytes.take k) ∧
      (k = bytes.length ∧ r = .ok () ∨ k < bytes.length ∧ r = .error (.writeTimeout k bytes.length)) := by
  obtain ⟨k, htraffic, hend⟩ := traffic_sendFrom h
  exact ⟨k, htraffic, by simpa using hend⟩

theorem traffic_collect {most : Nat} {r : { bytes : List UInt8 // bytes.length ≤ most }}
    (h : Execution (collect base most) t r) : Traffic base t r.val [] := by
  induction most generalizing t with
  | zero =>
    obtain ⟨rfl, rfl⟩ := Execution.of_done h
    exact .nil
  | succ most ih =>
    obtain ⟨t₁, t₂, ready, rfl, hlook, h⟩ := Execution.of_bind h
    have hquiet : Traffic base t₁ [] [] := .looks hlook only_readable
    cases ready with
    | false =>
      obtain ⟨rfl, rfl⟩ := Execution.of_done h
      simpa using hquiet
    | true =>
      obtain ⟨t₃, t₄, byte, rfl, hread, h⟩ := Execution.of_bind h
      obtain ⟨t₅, t₆, rest, rfl, hrest, h⟩ := Execution.of_bind h
      obtain ⟨rfl, rfl⟩ := Execution.of_done h
      simpa using hquiet.append ((traffic_input hread).append (ih hrest))

/-- A result is what was read for it. -/
theorem traffic_receive {n : ResultLength} {r : Except Failure (ResultBytes n)} (h : Execution (receive base n) t r) :
    ∃ bytes, Traffic base t bytes [] ∧ ∀ result, r = .ok result → result.toList = bytes := by
  obtain ⟨t₁, t₂, taken, rfl, hcollect, h⟩ := Execution.of_bind h
  obtain ⟨rfl, rfl⟩ := Execution.of_done h
  refine ⟨taken.val, by simpa using traffic_collect hcollect, ?_⟩
  intro result hresult
  split at hresult
  · exact congrArg ResultBytes.toList (Except.ok.inj hresult).symm
  · exact absurd hresult nofun

theorem traffic_takePayload {ms count : Nat} {taken bytes : List UInt8}
    (h : Execution (takePayload base ms count taken) t bytes) :
    ∃ got, got.length ≤ count ∧ Traffic base t got [] ∧ bytes = got.reverse ++ taken := by
  induction count generalizing taken t with
  | zero =>
    obtain ⟨rfl, rfl⟩ := Execution.of_done h
    exact ⟨[], Nat.le_refl 0, .nil, rfl⟩
  | succ count ih =>
    obtain ⟨t₁, t₂, ready, rfl, hlook, h⟩ := Execution.of_bind h
    have hquiet : Traffic base t₁ [] [] := .looks hlook (only_payloadReady _ _)
    cases ready with
    | false =>
      obtain ⟨rfl, rfl⟩ := Execution.of_done h
      exact ⟨[], Nat.zero_le _, by simpa using hquiet, rfl⟩
    | true =>
      obtain ⟨t₃, t₄, byte, rfl, hread, h⟩ := Execution.of_bind h
      obtain ⟨got, hlength, hrest, rfl⟩ := ih h
      refine ⟨byte :: got, Nat.succ_le_succ hlength, ?_, by simp⟩
      exact hquiet.append ((traffic_input hread).append hrest)

theorem traffic_readPayload {ms count : Nat} (h : Execution (readPayload base ms count) t bytes) :
    Traffic base t bytes [] ∧ bytes.length ≤ count := by
  obtain ⟨t₁, t₂, taken, rfl, htake, h⟩ := Execution.of_bind h
  obtain ⟨rfl, rfl⟩ := Execution.of_done h
  obtain ⟨got, hlength, htraffic, rfl⟩ := traffic_takePayload htake
  simpa using And.intro htraffic hlength

theorem traffic_givePayload {ms given total : Nat} (h : Execution (givePayload base ms bytes given) t total) :
    ∃ k ≤ bytes.length, total = given + k ∧ Traffic base t [] (bytes.take k) := by
  induction bytes generalizing given t with
  | nil =>
    obtain ⟨rfl, rfl⟩ := Execution.of_done h
    exact ⟨0, Nat.le_refl 0, rfl, .nil⟩
  | cons b rest ih =>
    obtain ⟨t₁, t₂, ready, rfl, hlook, h⟩ := Execution.of_bind h
    have hquiet : Traffic base t₁ [] [] := .looks hlook (only_payloadReady _ _)
    cases ready with
    | false =>
      obtain ⟨rfl, rfl⟩ := Execution.of_done h
      exact ⟨0, Nat.zero_le _, rfl, by simpa using hquiet⟩
    | true =>
      obtain ⟨t₃, t₄, ⟨⟩, rfl, hwrite, h⟩ := Execution.of_bind h
      obtain ⟨k, hk, rfl, hrest⟩ := ih h
      refine ⟨k + 1, Nat.succ_le_succ hk, by omega, ?_⟩
      exact hquiet.append ((traffic_output hwrite).append hrest)

theorem traffic_writePayload {ms total : Nat} (h : Execution (writePayload base ms bytes) t total) :
    Traffic base t [] (bytes.take total) ∧ total ≤ bytes.length := by
  obtain ⟨k, hk, rfl, htraffic⟩ := traffic_givePayload h
  simpa using And.intro htraffic hk

end Fifo

namespace Operation

/-- The sectors that are read hold what has come over the port. -/
theorem traffic_readSectors {size count : Nat} (h : Execution (readSectors base size count) t bytes) :
    Traffic base t bytes [] ∧ bytes.length ≤ count * size := by
  induction count generalizing t bytes with
  | zero =>
    obtain ⟨rfl, rfl⟩ := Execution.of_done h
    exact ⟨.nil, Nat.zero_le _⟩
  | succ count ih =>
    obtain ⟨t₁, t₂, ready, rfl, hlook, h⟩ := Execution.of_bind h
    have hquiet : Traffic base t₁ [] [] := .looks hlook (Fifo.only_awaitStatus _ _)
    obtain ⟨t₃, t₄, sector, rfl, hwindow, h⟩ := Execution.of_bind h
    obtain ⟨u, hu, hread⟩ := Traffic.uninterrupted hwindow
    obtain ⟨htraffic, hlength⟩ := Fifo.traffic_readPayload hu
    have hsector : Traffic base (t₁ ++ t₃) sector [] := hquiet.append (hread htraffic)
    split at h
    · obtain ⟨t₅, t₆, rest, rfl, hrest, h⟩ := Execution.of_bind h
      obtain ⟨rfl, rfl⟩ := Execution.of_done h
      obtain ⟨hmore, hmost⟩ := ih hrest
      refine ⟨by simpa using hsector.append hmore, ?_⟩
      rw [List.length_append, Nat.succ_mul]
      omega
    · obtain ⟨rfl, rfl⟩ := Execution.of_done h
      refine ⟨by simpa using hsector, ?_⟩
      rw [Nat.succ_mul]
      omega

/-- The sectors that are written are as many bytes of their source as have gone over the port. -/
theorem traffic_writeSectors {size count total : Nat} (h : Execution (writeSectors base size count bytes) t total) :
    Traffic base t [] (bytes.take total) ∧ total ≤ count * size := by
  induction count generalizing t bytes total with
  | zero =>
    obtain ⟨rfl, rfl⟩ := Execution.of_done h
    exact ⟨.nil, Nat.zero_le _⟩
  | succ count ih =>
    obtain ⟨t₁, t₂, ready, rfl, hlook, h⟩ := Execution.of_bind h
    have hquiet : Traffic base t₁ [] [] := .looks hlook (Fifo.only_awaitStatus _ _)
    obtain ⟨t₃, t₄, sent, rfl, hwindow, h⟩ := Execution.of_bind h
    obtain ⟨u, hu, hwrite⟩ := Traffic.uninterrupted hwindow
    obtain ⟨htraffic, hlength⟩ := Fifo.traffic_writePayload hu
    rw [List.length_take] at hlength
    rw [List.take_take, Nat.min_eq_left (by omega)] at htraffic
    have hsector : Traffic base (t₁ ++ t₃) [] (bytes.take sent) := hquiet.append (hwrite htraffic)
    split at h
    · rename_i hwhole
      obtain ⟨t₅, t₆, rest, rfl, hrest, h⟩ := Execution.of_bind h
      obtain ⟨rfl, rfl⟩ := Execution.of_done h
      obtain ⟨hmore, hmost⟩ := ih hrest
      rw [← hwhole] at hmore
      refine ⟨?_, ?_⟩
      · rw [List.take_add]
        simpa using hsector.append hmore
      · rw [Nat.succ_mul]
        omega
    · obtain ⟨rfl, rfl⟩ := Execution.of_done h
      refine ⟨by simpa using hsector, ?_⟩
      rw [Nat.succ_mul]
      omega

variable {c : Controller} {interrupting : Bool} {load : Option ChannelLoad} {k : Nat}

/-- A window without interrupts in which a channel is loaded, the line is made ready with what is to be expected of it,
and so many bytes of a command are written. -/
def CommandWindow (c : Controller) (interrupting : Bool) (load : Option ChannelLoad) (expectation : Expectation)
    (bytes : List UInt8) (k : Nat) (t : History Platform) : Prop :=
  ∃ wasEnabled loading expecting talk,
    t = ⟨.suppress, wasEnabled⟩ :: (loading ++ (expecting ++ talk)) ++ [⟨.resume wasEnabled, ()⟩] ∧
    Execution (setUpChannel load) loading () ∧ Execution (expectEnd c interrupting) expecting expectation ∧
    (∀ e ∈ talk, Fifo.Sends c.base e.call) ∧ Traffic c.base talk [] (bytes.take k)

theorem execution_setUpChannel {l : ChannelLoad} (h : Execution (setUpChannel (some l)) t ()) :
    ∃ ranOut, t = [⟨.channel l.channel .mask, ()⟩, ⟨.channel l.channel (.setMode (.oneShot l.direction)), ()⟩,
      ⟨.channel l.channel (.loadCount (UInt32.ofNat l.length)), ()⟩, ⟨.channel l.channel (.loadAddress l.address), ()⟩,
      ⟨.channel l.channel .unmask, ()⟩, ⟨.channel l.channel .terminalCount, ranOut⟩] := by
  have hrun : (setUpChannel (some l)).Ensures recorded (fun _ u => ∃ ranOut, u = [⟨.channel l.channel .mask, ()⟩,
      ⟨.channel l.channel (.setMode (.oneShot l.direction)), ()⟩,
      ⟨.channel l.channel (.loadCount (UInt32.ofNat l.length)), ()⟩, ⟨.channel l.channel (.loadAddress l.address), ()⟩,
      ⟨.channel l.channel .unmask, ()⟩, ⟨.channel l.channel .terminalCount, ranOut⟩]) [] := by
    simp only [setUpChannel, Channel.setUp, Platform.channel, Program.call_bind, Program.done_bind,
      Program.ensures_recorded, Program.pure_eq, Program.ensures_done]
    exact fun _ _ _ _ _ ranOut => ⟨ranOut, rfl⟩
  exact h.recorded hrun

/-- Nothing goes over the port in the window of a command but what is sent of it. -/
theorem CommandWindow.traffic {expectation : Expectation}
    (h : CommandWindow c interrupting load expectation bytes k t) : Traffic c.base t [] (bytes.take k) := by
  obtain ⟨wasEnabled, loading, expecting, talk, rfl, hload, hexpect, -, htraffic⟩ := h
  have hopen : Traffic c.base [⟨.suppress, wasEnabled⟩] [] [] := ⟨rfl, rfl⟩
  have hclose : Traffic c.base [⟨.resume wasEnabled, ()⟩] [] [] := ⟨rfl, rfl⟩
  have hloading : Traffic c.base loading [] [] := by
    refine .quiet hload (only_setUpChannel load) ?_
    rintro _ ⟨_, _, _, rfl⟩
    exact id
  have hexpecting : Traffic c.base expecting [] [] := by
    refine .quiet hexpect (only_expectEnd c interrupting) ?_
    rintro _ ⟨_, rfl, -⟩
    exact id
  simpa using ((hopen.append hloading).append (hexpecting.append htraffic)).append hclose

/-- Whatever is written of a command is written in one window. -/
theorem ensures_sendCommand_window (bytes : List UInt8) (interrupting : Bool) (load : Option ChannelLoad) :
    Attempt.Ensures recorded (sendCommand bytes interrupting load)
      (fun _ c' t' => c'.stance = c.stance ∧
        ∃ u, t' = t ++ u ∧ CommandWindow c interrupting load c'.expectation bytes bytes.length u)
      (fun cause c' t' => c'.stance = c.stance ∧ ∃ u k, t' = t ++ u ∧ k < bytes.length ∧
        cause = .writeTimeout k bytes.length ∧ CommandWindow c interrupting load c'.expectation bytes k u) c t := by
  simp only [sendCommand, Attempt.ensures_bind, Attempt.ensures_setPhase, Attempt.ensures_getThe, Attempt.ensures_lift]
  refine (Program.ensures_execution _ t).mono ?_
  rintro ⟨expectation, sent⟩ _ ⟨u, rfl, hwindow⟩
  obtain ⟨wasEnabled, inside, rfl, h⟩ := hwindow.of_uninterrupted
  obtain ⟨loading, t₁, ⟨⟩, rfl, hload, h⟩ := Execution.of_bind h
  obtain ⟨expecting, t₂, expectation', rfl, hexpect, h⟩ := Execution.of_bind h
  obtain ⟨talk, t₃, sent', rfl, hsend, h⟩ := Execution.of_bind h
  obtain ⟨rfl, hpair⟩ := Execution.of_done h
  obtain ⟨rfl, rfl⟩ := Prod.mk.inj hpair
  obtain ⟨k, htraffic, hend⟩ := Fifo.traffic_send hsend
  have hshape : CommandWindow c interrupting load expectation bytes k
      (⟨.suppress, wasEnabled⟩ :: (loading ++ (expecting ++ (talk ++ []))) ++ [⟨.resume wasEnabled, ()⟩]) :=
    ⟨wasEnabled, loading, expecting, talk, by simp, hload, hexpect,
      (Fifo.only_send bytes).execution hsend, htraffic⟩
  rw [Attempt.ensures_modify, Attempt.ensures_ofExcept]
  rcases hend with ⟨rfl, rfl⟩ | ⟨hk, rfl⟩
  · exact ⟨rfl, _, rfl, hshape⟩
  · exact ⟨rfl, _, k, rfl, hk, rfl, hshape⟩

end Operation
end Diskette
