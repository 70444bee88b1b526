import Diskette.Proofs.Wire.Commands
import Diskette.Simulated.Machine

/-!
The handshake on the data port. Every byte goes right after a status that asks for it, in a window
without interrupts, and each window is closed with what was answered when it was opened.
-/
namespace Diskette

variable {base : UInt16} {histories : List (History Platform)} {controller : Option Controller}
  {t : History Platform}

/-- Each suppression has its restore, with the value it has answered. -/
inductive Matched : History Platform → Prop
  | nil : Matched []
  | other {e : Exchange Platform} {t : History Platform} :
      e.call ≠ .suppress → (∀ b, e.call ≠ .resume b) → Matched t → Matched (e :: t)
  | window {b : Bool} {t u : History Platform} :
      Matched t → Matched u → Matched (⟨.suppress, b⟩ :: t ++ ⟨.resume b, ()⟩ :: u)

/-- The rest of a history in which some windows are open. -/
def Closes : List Bool → History Platform → Prop
  | [], t => Matched t
  | b :: windows, t =>
    ∃ inner outer, t = inner ++ ⟨.resume b, ()⟩ :: outer ∧ Matched inner ∧ Closes windows outer

theorem Closes.other {windows : List Bool} {e : Exchange Platform} (hs : e.call ≠ .suppress)
    (hr : ∀ b, e.call ≠ .resume b) (h : Closes windows t) : Closes windows (e :: t) := by
  cases windows with
  | nil => exact Matched.other hs hr h
  | cons b windows =>
    obtain ⟨inner, outer, rfl, hinner, houter⟩ := h
    exact ⟨e :: inner, outer, rfl, Matched.other hs hr hinner, houter⟩

theorem Closes.enter {windows : List Bool} {b : Bool} (h : Closes (b :: windows) t) :
    Closes windows (⟨.suppress, b⟩ :: t) := by
  obtain ⟨inner, outer, rfl, hinner, houter⟩ := h
  cases windows with
  | nil => exact .window hinner houter
  | cons b' windows =>
    obtain ⟨inner', outer', rfl, hinner', houter'⟩ := houter
    exact ⟨⟨.suppress, b⟩ :: inner ++ ⟨.resume b, ()⟩ :: inner', outer', by simp,
      .window hinner hinner', houter'⟩

theorem Closes.leave {windows : List Bool} {b : Bool} (h : Closes windows t) :
    Closes (b :: windows) (⟨.resume b, ()⟩ :: t) := ⟨[], t, rfl, .nil, h⟩

/-- A history that leaves no window open closes those it starts with. -/
theorem closes_of_accepts {w : Wire} (h : (Wire.listener base).Accepts w t)
    (hend : ((Wire.listener base).after w t).windows = []) : Closes w.windows t := by
  induction t generalizing w with
  | nil =>
    have hnone : w.windows = [] := hend
    rw [hnone]
    exact .nil
  | cons e t ih =>
    obtain ⟨hpermits, ht⟩ := (Listener.accepts_cons _).mp h
    have hrest : Closes (w.hear base e.call e.reply).windows t := ih ht hend
    obtain ⟨c, r⟩ := e
    cases c with
    | suppress => exact hrest.enter
    | resume b =>
      have hhead : w.windows.head? = some b := hpermits
      obtain ⟨windows, hwindows⟩ := List.head?_eq_some_iff.mp hhead
      have houter : Closes w.windows.tail t := hrest
      rw [hwindows] at houter ⊢
      exact houter.leave
    | _ =>
      apply Closes.other (by nofun) (by nofun)
      rwa [Wire.windows_hear (by nofun) (by nofun)] at hrest

/-- The flag after a history, where these two calls alone change it. -/
def flagAfter (flag : Bool) (t : History Platform) : Bool :=
  t.foldl (fun flag e => match e.call with
    | .suppress => false
    | .resume wasEnabled => flag || wasEnabled
    | _ => flag) flag

/-- Each suppression is answered with the flag as it was. -/
def KeepsFlag (flag : Bool) (t : History Platform) : Prop :=
  ∀ before b later, t = before ++ ⟨.suppress, b⟩ :: later → b = flagAfter flag before

theorem flagAfter_append (flag : Bool) (t u : History Platform) :
    flagAfter flag (t ++ u) = flagAfter (flagAfter flag t) u := List.foldl_append

theorem KeepsFlag.of_append {flag : Bool} {t u : History Platform} (h : KeepsFlag flag (t ++ u)) :
    KeepsFlag flag t ∧ KeepsFlag (flagAfter flag t) u := by
  constructor
  · intro before b later ht
    exact h before b (later ++ u) (by simp [ht])
  · intro before b later hu
    have hb := h (t ++ before) b later (by simp [hu])
    rwa [flagAfter_append] at hb

theorem flagAfter_other {flag : Bool} {e : Exchange Platform} (hs : e.call ≠ .suppress)
    (hr : ∀ b, e.call ≠ .resume b) : flagAfter flag [e] = flag := by
  obtain ⟨c, r⟩ := e
  cases c <;> first | rfl | exact (hs rfl).elim | exact (hr _ rfl).elim

theorem flagAfter_of_matched (h : Matched t) (flag : Bool) (hkeeps : KeepsFlag flag t) :
    flagAfter flag t = flag := by
  induction h generalizing flag with
  | nil => rfl
  | @other e t hs hr _ ih =>
    obtain ⟨-, ht⟩ := KeepsFlag.of_append (t := [e]) hkeeps
    rw [flagAfter_other hs hr] at ht
    have hsplit := flagAfter_append flag [e] t
    rw [flagAfter_other hs hr, ih flag ht] at hsplit
    exact hsplit
  | @window b t u _ _ iht ihu =>
    have hb : b = flag := hkeeps [] b (t ++ ⟨.resume b, ()⟩ :: u) rfl
    obtain ⟨-, hinside⟩ := KeepsFlag.of_append (t := [⟨.suppress, b⟩]) hkeeps
    obtain ⟨ht, houtside⟩ := KeepsFlag.of_append hinside
    have hinner : flagAfter false t = false := iht false ht
    obtain ⟨-, hu⟩ := KeepsFlag.of_append (t := [⟨.resume b, ()⟩]) houtside
    have hrestored : flagAfter (flagAfter false t) [⟨.resume b, ()⟩] = flag := by
      rw [hinner, hb]
      exact Bool.false_or flag
    calc flagAfter flag (⟨.suppress, b⟩ :: t ++ ⟨.resume b, ()⟩ :: u)
      _ = flagAfter (flagAfter false t) (⟨.resume b, ()⟩ :: u) := flagAfter_append false t _
      _ = flagAfter (flagAfter (flagAfter false t) [⟨.resume b, ()⟩]) u := rfl
      _ = flagAfter flag u := by rw [hrestored]
      _ = flag := ihu flag (hrestored ▸ hu)

/-- The last call has read a status that asks for the byte that comes next, and no interrupt can come
in between. -/
structure Asked (base : UInt16) (before : History Platform) (ready payloadReady : MainStatus → Bool) :
    Prop where
  uninterrupted : ((Wire.listener base).after {} before).windows ≠ []
  status : ∃ earlier byte, before = earlier ++ [⟨.input (Port.mainStatus base), byte⟩] ∧
    ready ⟨byte⟩ ∧ (((Wire.listener base).after {} before).due ≠ 0 → payloadReady ⟨byte⟩)

structure Handshake (base : UInt16) (histories : List (History Platform)) : Prop where
  write : ∀ before value later,
    histories.flatten = before ++ ⟨.output (Port.data base) value, ()⟩ :: later →
      Asked base before MainStatus.canWrite MainStatus.canWritePayload
  read : ∀ before byte later,
    histories.flatten = before ++ ⟨.input (Port.data base), byte⟩ :: later →
      Asked base before MainStatus.canRead MainStatus.canReadPayload
  matched : ∀ h ∈ histories, Matched h
  flag : ∀ h ∈ histories, ∀ flag, KeepsFlag flag h → flagAfter flag h = flag

theorem status_after {status : MainStatus}
    (h : ((Wire.listener base).after {} t).status = some status) :
    ∃ earlier byte, t = earlier ++ [⟨.input (Port.mainStatus base), byte⟩] ∧ status = ⟨byte⟩ := by
  rcases List.eq_nil_or_concat t with rfl | ⟨earlier, e, rfl⟩
  · simp at h
  · rw [List.concat_eq_append, Listener.after_append] at h
    obtain ⟨byte, rfl, hbyte⟩ := Wire.status_hear h
    exact ⟨earlier, byte, List.concat_eq_append, hbyte⟩

theorem asked_of_paced {ready payloadReady : MainStatus → Bool}
    (h : ((Wire.listener base).after {} t).Paced ready payloadReady) :
    Asked base t ready payloadReady := by
  obtain ⟨hwindows, status, hstatus, hready, hpayload⟩ := h
  obtain ⟨earlier, byte, ht, rfl⟩ := status_after hstatus
  exact ⟨hwindows, earlier, byte, ht, hready, hpayload⟩

theorem heard_run (h : Run base histories controller) :
    (∀ c ∈ controller, c.base = base) ∧ (Wire.listener base).Accepts {} histories.flatten ∧
      Wire.Rests [] ((Wire.listener base).after {} histories.flatten) ∧
      ∀ h ∈ histories, Matched h := by
  induction h with
  | start => exact ⟨by simp, Listener.accepts_nil _ _, ⟨rfl, rfl⟩, by simp⟩
  | @act histories controller controller' h a _ hexec ih =>
    obtain ⟨hbase, haccepts, hrests, hmatched⟩ := ih
    obtain ⟨hheard, hbase', hrests'⟩ := hexec.heard (Wire.ensures_act a hbase hrests)
    have hclosed : Matched h := by
      have hcloses := closes_of_accepts hheard hrests'.windows
      rwa [hrests.windows] at hcloses
    simp only [List.flatten_append, List.flatten_singleton, Listener.after_append]
    refine ⟨hbase', Listener.accepts_append _ haccepts hheard, hrests', ?_⟩
    simp only [List.mem_append, List.mem_singleton]
    rintro h' (hold | rfl)
    · exact hmatched h' hold
    · exact hclosed

/-- The driver keeps the handshake in every run, whatever the platform does. -/
theorem handshake (h : Run base histories controller) : Handshake base histories := by
  obtain ⟨-, haccepts, -, hmatched⟩ := heard_run h
  refine ⟨?_, ?_, hmatched, fun h' hh' => flagAfter_of_matched (hmatched h' hh')⟩
  · intro before value later hsplit
    exact asked_of_paced (haccepts before _ later hsplit rfl)
  · intro before byte later hsplit
    exact asked_of_paced (haccepts before _ later hsplit rfl)

/-- The first command on a controller that was just found. -/
theorem handshake_recalibrate :
    let s := Session.acts Simulated.machine 0x3F0 { machine := {} }
      [.discover (some 6) (some 2), .ask (.execute .recalibrate)]
    s.histories.flatten.any (fun e => e.call == .output (Port.data 0x3F0) Opcode.recalibrate) ∧
      Handshake 0x3F0 s.histories :=
  ⟨by decide +kernel, handshake (Session.run_acts _ _ _ .start)⟩

end Diskette
