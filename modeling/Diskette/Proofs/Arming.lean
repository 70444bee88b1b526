import Diskette.Proofs.Arming.Commands
import Diskette.Proofs.InterruptFlag
import Diskette.Proofs.Ownership

/-!
A DMA channel is armed for the transfer of a data command, in the window without interrupts in which that command is
sent, and at no other time. What it is told to move lies in the bounce buffer.
-/
namespace Diskette

variable {σ : Type} {follows : σ → (c : Platform.Call) → Platform.Reply c → σ → Prop} {enabled : σ → Bool}
  {handled : σ → Nat} {s s' : σ} {base : UInt16} {histories : List (History Platform)}
  {controller controller' : Option Controller} {h : History Platform} {a : Act}

/-- What is asked of a controller arms its channel for a transfer that comes with a command, or arms nothing. -/
theorem ensures_request_armed (request : Request) {c : Controller} (hlined : c.path = .channel → c.line.isSome) :
    Operation.Ensures recorded request.perform (fun _ _ h => (∀ e ∈ h, Unarmed c.channel e.call) ∨
      ∃ command t, request = .executeWith command t ∧ ArmedBy c command t h) c [] := by
  by_cases hdata : ∃ command t, request = .executeWith command t
  · obtain ⟨command, t, rfl⟩ := hdata
    simp only [Request.perform, Operation.executeWith, Operation.ensures_bind, Operation.ensures_pure]
    refine (ensures_perform_armed hlined).mono fun _ _ h hend => ?_
    rcases hend.restrained with hnone | harmed
    · exact .inl hnone
    · exact .inr ⟨command, t, rfl, harmed⟩
  · rw [request.perform_eq]
    have hcommand : ∀ command t, request.command? = some (command, t) →
        Operation.Keeps recorded (Since c.channel (· = [])) (Operation.perform command t) := by
      intro command t hc
      cases request with
      | execute _ =>
        obtain ⟨rfl, rfl⟩ := Prod.mk.inj (Option.some.inj hc)
        exact since_perform_none _
      | executeWith command t => exact absurd ⟨command, t, rfl⟩ hdata
      | _ => simp [Request.command?] at hc
    refine Operation.ensures_bind.mpr
      ((serviceable_since.respond request hcommand c [] (.start rfl rfl)).mono fun _ _ h hend => .inl ?_)
    obtain ⟨-, u, v, rfl, rfl, hv⟩ := hend
    exact hv

theorem armed_of_act (hlined : ∀ c ∈ controller, c.path = .channel → c.line.isSome)
    (hexec : Execution (a.program base controller) h controller') :
    (∃ channel, ∀ e ∈ h, Unarmed channel e.call) ∨
      ∃ c command t, a = .ask (.executeWith command t) ∧ controller = some c ∧ ArmedBy c command t h := by
  have hfound : ∀ placement opening, Execution (Opening.find placement opening) h controller' →
      ∃ channel, ∀ e ∈ h, Unarmed channel e.call := by
    intro placement opening hfind
    obtain ⟨hnone, hsome⟩ := hfind.recorded (ensures_find_unarmed placement opening)
    cases controller' with
    | none => exact ⟨none, hnone rfl⟩
    | some c =>
      obtain ⟨-, u, v, rfl, rfl, hv⟩ := hsome c rfl
      exact ⟨c.channel, hv⟩
  cases a with
  | probe irq channel => exact .inl (hfound _ .probe hexec)
  | discover irq channel => exact .inl (hfound _ .discover hexec)
  | ask request =>
    cases controller with
    | none =>
      obtain ⟨rfl, -⟩ := hexec.of_done
      exact .inl ⟨none, by simp⟩
    | some c =>
      obtain ⟨t₁, t₂, ⟨_, c'⟩, rfl, hperform, hend⟩ := hexec.of_bind
      obtain ⟨rfl, -⟩ := hend.of_done
      rw [List.append_nil]
      rcases hperform.recorded (ensures_request_armed request (hlined c rfl)) with hnone | ⟨command, t, rfl, harmed⟩
      · exact .inl ⟨c.channel, hnone⟩
      · exact .inr ⟨c, command, t, rfl, rfl, harmed⟩
  | release =>
    cases controller with
    | none =>
      obtain ⟨rfl, -⟩ := hexec.of_done
      exact .inl ⟨none, by simp⟩
    | some c =>
      obtain ⟨t₁, t₂, ⟨_, c'⟩, rfl, hrelease, hend⟩ := hexec.of_bind
      obtain ⟨rfl, -⟩ := hend.of_done
      obtain ⟨-, u, v, hsplit, rfl, hv⟩ :=
        hrelease.recorded (leavable_since.release steady_since.calm.maskChannel c [] (.start (P := (· = [])) rfl rfl))
      rw [List.append_nil, hsplit]
      exact .inl ⟨c.channel, hv⟩

/-- Handlers run only while the processor's flag is set: a suppression clears it, and then it takes a restore to set
it again. -/
structure Gated (follows : σ → (c : Platform.Call) → Platform.Reply c → σ → Prop) (enabled : σ → Bool)
    (handled : σ → Nat) : Prop where
  suppress : ∀ {s wasEnabled s'}, follows s .suppress wasEnabled s' → enabled s' = false
  closed : ∀ {s call r s'}, enabled s = false → (∀ b, call ≠ .resume b) → follows s call r s' →
    enabled s' = false ∧ handled s' = handled s

/-- No handler runs before the flag is restored. -/
theorem Gated.passage {α : Type} {p : Routine α} {x : α} {inside later : List (Moment Platform σ)}
    {last : Moment Platform σ} (hgated : Gated follows enabled handled)
    (h : Passage follows p s (inside ++ last :: later) x s') (hs : enabled s = false)
    (hinside : ∀ m ∈ inside, ∀ b, m.exchange.call ≠ .resume b) :
    ∀ m ∈ inside ++ [last], enabled m.state = false ∧ handled m.state = handled s := by
  induction inside generalizing p s with
  | nil =>
    cases h with
    | call => simp [hs]
  | cons m inside ih =>
    cases h with
    | @call call next r _ s₁ _ _ _ hfollows hrest =>
      obtain ⟨hs₁, hhandled⟩ := hgated.closed hs (hinside ⟨s, call, r⟩ (by simp)) hfollows
      have hlater := ih hrest hs₁ fun m hm => hinside m (List.mem_cons_of_mem _ hm)
      intro m' hm'
      rcases List.mem_cons.mp hm' with rfl | hm'
      · exact ⟨hs, rfl⟩
      · exact ⟨(hlater m' hm').1, (hlater m' hm').2.trans hhandled⟩

theorem Arming.not_resume {w : Arming} (htalk : ∀ e ∈ w.talk, Fifo.Sends base e.call) :
    ∀ e ∈ w.inside, ∀ b, e.call ≠ .resume b := by
  intro e he b
  rcases List.mem_append.mp he with hsetUp | he
  · simp only [setUp, List.mem_cons, List.not_mem_nil, or_false] at hsetUp
    rcases hsetUp with rfl | rfl | rfl | rfl | rfl | rfl <;> simp
  · rcases List.mem_append.mp he with hexpect | htalks
    · simp only [expect, List.mem_cons, List.not_mem_nil, or_false] at hexpect
      rcases hexpect with rfl | rfl <;> simp
    · intro hresume
      have hsends := htalk e htalks
      rw [hresume] at hsends
      exact hsends

/-- From the suppression on, no handler runs in the window of an arming. -/
theorem Gated.window {α : Type} {p : Routine α} {x : α} {w : Arming} {during later : List (Moment Platform σ)}
    (hgated : Gated follows enabled handled) (htalk : ∀ e ∈ w.talk, Fifo.Sends base e.call)
    (hduring : during.map (·.exchange) = w.window) (h : Passage follows p s (during ++ later) x s') :
    ∃ n, ∀ m ∈ during.tail, enabled m.state = false ∧ handled m.state = n := by
  obtain ⟨first, rest, rfl, hfirst, hrest⟩ := List.map_eq_cons_iff.mp hduring
  obtain ⟨inside, last, ends, rfl, hinside, -, hends⟩ := exists_moment_of_map hrest
  obtain rfl := List.map_eq_nil_iff.mp hends
  cases h with
  | @call call next r _ s₁ _ _ _ hfollows h =>
    obtain ⟨rfl, -⟩ : call = .suppress ∧ HEq r w.wasEnabled := by simpa using hfirst
    have hopen := hgated.suppress hfollows
    have hrest : Passage follows (next r) s₁ (inside ++ last :: later) x s' := by simpa using h
    refine ⟨handled s₁, hgated.passage hrest hopen fun m hm => ?_⟩
    exact Arming.not_resume htalk _ (hinside ▸ List.mem_map_of_mem hm)

/-- The simulated machine is such a one, whatever fires for no reason: what its handlers count shows that. -/
theorem Simulated.gated (id : Nat) : Gated guarded.follows (fun m => m.interrupts.enabled)
    fun m => (m.interrupts.memory.counter id).fired.toNat where
  suppress := enabled_suppress
  closed := by
    rintro m call r m' hclear hcall ⟨m₁, hstep, hspurious⟩
    obtain rfl : (m.step call).2 = m₁ := congrArg Prod.snd hstep
    have hstill : (m.step call).2.interrupts.enabled = false := by
      rw [enabled_step, hclear]
      cases call <;> first | rfl | exact absurd rfl (hcall _)
    refine ⟨hspurious.reacts.interrupts.steadfast.enabled.trans hstill, ?_⟩
    have hcounters := hspurious.reacts.interrupts.counters hstill
    rw [Memory.counter, hcounters]
    exact congrArg UInt32.toNat (fired_step hclear hcall id)

/-- A channel is armed only by a data command on the DMA path. In one window without interrupts it is masked, told the
one-shot mode and the way of the command, the length of the request and the bounce buffer, and unmasked; then the
counter of the line is read and the command is sent, and no handler runs until that is done. -/
theorem arms_in_window (hgated : Gated follows enabled handled) (hrun : Run base histories controller)
    {ms : List (Moment Platform σ)} (hpassage : Passage follows (a.program base controller) s ms controller' s') :
    (∀ m ∈ ms, ¬m.exchange.call.Arms) ∨
      ∃ (c : Controller) (command : Command) (t : Transfer) (w : Arming) (before during after : List (Moment Platform σ)),
        a = .ask (.executeWith command t) ∧ controller = some c ∧ ms = before ++ during ++ after ∧
        (∀ m ∈ before ++ after, ¬m.exchange.call.Arms) ∧ during.map (·.exchange) = w.window ∧
        w.Serves c command t (before.map (·.exchange)) ∧
        w.Sends c command (command.bytes c.drive c.recording) (after.map (·.exchange)) ∧
        ∃ n, ∀ m ∈ during.tail, enabled m.state = false ∧ handled m.state = n := by
  have hlined : ∀ c ∈ controller, c.path = .channel → c.line.isSome := fun c hc => (hrun.standing c hc).lined
  rcases armed_of_act hlined hpassage.execution with ⟨channel, hnone⟩ | ⟨c, command, t, ha, hc, harmed⟩
  · exact .inl fun m hm => not_arms_of_unarmed (hnone _ (List.mem_map_of_mem hm))
  · obtain ⟨lead, w, tail, hsplit, hunarmed, hserves, hsends⟩ := harmed
    obtain ⟨most, after, rfl, hmost, rfl⟩ := List.map_eq_append_iff.mp hsplit
    obtain ⟨before, during, rfl, rfl, hduring⟩ := List.map_eq_append_iff.mp hmost
    rw [List.append_assoc] at hpassage
    obtain ⟨q, s₁, hwindow⟩ := hpassage.suffix
    refine .inr ⟨c, command, t, w, before, during, after, ha, hc, rfl, ?_, hduring, hserves, hsends,
      hgated.window hsends.talk hduring hwindow⟩
    intro m hm
    rw [← List.map_append] at hunarmed
    exact not_arms_of_unarmed (hunarmed _ (List.mem_map_of_mem hm))

/-- A sector is read by a controller that was just discovered. -/
theorem arms_in_window_read :
    let session := Session.acts Simulated.machine 0x3F0 { machine := {} } [.discover (some 6) (some 2)]
    let t := Transfer.read (List.replicate 512 0)
    let act := Act.ask (.executeWith (.read ⟨0, 0, 1, 2, 1⟩) t)
    ∃ controller m ms, Run 0x3F0 session.histories session.controller ∧
      Passage Simulated.guarded.follows (act.program 0x3F0 session.controller) session.machine ms controller m ∧
      ∃ (c : Controller) (w : Arming) (before during after : List (Moment Platform Simulated)),
        session.controller = some c ∧ ms = before ++ during ++ after ∧ during.map (·.exchange) = w.window ∧
        w.Serves c (.read ⟨0, 0, 1, 2, 1⟩) t (before.map (·.exchange)) ∧
        ∃ n, ∀ m ∈ during.tail, m.state.interrupts.enabled = false ∧
          (m.state.interrupts.memory.counter 0).fired.toNat = n := by
  intro session t act
  have hrun : Run 0x3F0 session.histories session.controller := Session.run_acts _ _ _ .start
  have hpassage := Simulated.keepsTo_guarded.passage_moments (act.program 0x3F0 session.controller) session.machine
  have hms := Program.exchange_moments Simulated.machine id (act.program 0x3F0 session.controller) session.machine
  generalize (act.program 0x3F0 session.controller).moments Simulated.machine id session.machine = ms at hpassage hms
  have hunmasked : ((act.program 0x3F0 session.controller).history Simulated.machine session.machine).any
      (fun e => e.call == .channel 2 .unmask) = true := by decide +kernel
  refine ⟨_, _, ms, hrun, hpassage, ?_⟩
  rcases arms_in_window (Simulated.gated 0) hrun hpassage with
    hnone | ⟨c, command, t', w, before, during, after, hact, hc, hsplit, -, hduring, hserves, -, hclosed⟩
  · obtain ⟨e, he, hcall⟩ := List.any_eq_true.mp hunmasked
    obtain ⟨m, hm, rfl⟩ := List.mem_map.mp (hms ▸ he)
    have harms := hnone m hm
    rw [eq_of_beq hcall] at harms
    exact absurd trivial harms
  · obtain ⟨rfl, rfl⟩ : command = .read ⟨0, 0, 1, 2, 1⟩ ∧ t' = t := by
      simp only [act, Act.ask.injEq, Request.executeWith.injEq] at hact
      exact ⟨hact.1.symm, hact.2.symm⟩
    exact ⟨c, w, before, during, after, hc, hsplit, hduring, hserves, hclosed⟩

end Diskette
