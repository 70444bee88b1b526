import Diskette.Pc.Emulated
import Diskette.Pc.SerialPort
import Diskette.Proofs.Execution

/-!
Text on the serial line. Whatever the line status says, and however a text comes in pieces, each of its
bytes goes out once and in order.
-/
namespace Diskette

namespace Log

/-- The bytes of a text with a carriage return before each line feed. -/
def spaced (bytes : List UInt8) : List UInt8 := bytes.flatMap fun b => if b = 10 then [13, 10] else [b]

/-- Takes one carriage return away before each line feed. -/
def unspaced : List UInt8 → List UInt8
  | 13 :: 10 :: rest => 10 :: unspaced rest
  | b :: rest => b :: unspaced rest
  | [] => []

theorem wire_eq (text : String) : wire text = spaced (Utf8.bytes text) := rfl

theorem spaced_append (s t : List UInt8) : spaced (s ++ t) = spaced s ++ spaced t := List.flatMap_append

theorem spaced_ne_feed_cons (bytes rest : List UInt8) : spaced bytes ≠ 10 :: rest := by
  cases bytes with
  | nil => simp [spaced]
  | cons b bytes =>
    simp only [spaced, List.flatMap_cons]
    split <;> simp_all

theorem unspaced_spaced (bytes : List UInt8) : unspaced (spaced bytes) = bytes := by
  induction bytes with
  | nil => rfl
  | cons b bytes ih =>
    by_cases hfeed : b = 10
    · subst hfeed
      have hcons : spaced (10 :: bytes) = 13 :: 10 :: spaced bytes := rfl
      rw [hcons, unspaced, ih]
    · have hcons : spaced (b :: bytes) = b :: spaced bytes := by simp [spaced, hfeed]
      -- a lone carriage return stays, for no line feed comes first in what follows it
      rw [hcons, unspaced, ih]
      exact fun rest _ hrest => spaced_ne_feed_cons bytes rest hrest

theorem wire_join (texts : List String) : wire (String.join texts) = texts.flatMap wire := by
  induction texts with
  | nil => rfl
  | cons text texts ih =>
    rw [String.join_cons, wire_eq, Utf8.bytes_append, spaced_append, List.flatMap_cons, ← ih, wire_eq, wire_eq]

end Log

namespace Pc.SerialPort

/-- Looks at the line status, with what each of them saw. -/
def glances (looks : List UInt8) : History Cpu := looks.map fun status => ⟨.input statusPort, status⟩

/-- The transmitter is never seen empty. -/
def Busy (looks : List UInt8) : Prop := ∀ status ∈ looks, status &&& 0x20 = 0

/-- A byte goes out right after the first look that sees the transmitter empty, or after all the looks that
there may be. -/
inductive Sent (b : UInt8) : History Cpu → Prop
  | ready {looks : List UInt8} {status : UInt8} (within : looks.length < transmitLooks) (busy : Busy looks)
      (empty : status &&& 0x20 ≠ 0) :
      Sent b (glances looks ++ [⟨.input statusPort, status⟩, ⟨.output dataPort b, ()⟩])
  | stalled {looks : List UInt8} (all : looks.length = transmitLooks) (busy : Busy looks) :
      Sent b (glances looks ++ [⟨.output dataPort b, ()⟩])

/-- Bytes that go out one after the other. -/
inductive Spelled : List UInt8 → History Cpu → Prop
  | nil : Spelled [] []
  | cons {b : UInt8} {bytes : List UInt8} {t u : History Cpu} (first : Sent b t) (rest : Spelled bytes u) :
      Spelled (b :: bytes) (t ++ u)

variable {b : UInt8} {bytes more : List UInt8} {t u : History Cpu}

theorem Spelled.append (ht : Spelled bytes t) (hu : Spelled more u) : Spelled (bytes ++ more) (t ++ u) := by
  induction ht with
  | nil => exact hu
  | cons first rest ih =>
    rw [List.cons_append, List.append_assoc]
    exact .cons first ih

theorem Spelled.single (h : Sent b t) : Spelled [b] t := by
  have hcons := Spelled.cons h .nil
  rwa [List.append_nil] at hcons

theorem waited {n : Nat} (h : Execution (waitEmpty n) t ()) :
    (∃ looks, looks.length = n ∧ Busy looks ∧ t = glances looks) ∨
    ∃ looks status, looks.length < n ∧ Busy looks ∧ status &&& 0x20 ≠ 0 ∧
      t = glances looks ++ [⟨.input statusPort, status⟩] := by
  induction n generalizing t with
  | zero =>
    obtain ⟨rfl, -⟩ := h.of_done
    exact .inl ⟨[], rfl, by simp [Busy], rfl⟩
  | succ n ih =>
    cases h with
    | @call _ _ status u _ h =>
      replace h : Execution (if status &&& 0x20 = 0 then waitEmpty n else pure ()) u () := h
      by_cases hbusy : status &&& 0x20 = 0
      · rw [if_pos hbusy] at h
        obtain ⟨looks, hlength, hlooks, rfl⟩ | ⟨looks, last, hlength, hlooks, hlast, rfl⟩ := ih h
        · exact .inl ⟨status :: looks, by simp [hlength], by simp_all [Busy], rfl⟩
        · exact .inr ⟨status :: looks, last, by simpa using hlength, by simp_all [Busy], hlast, rfl⟩
      · rw [if_neg hbusy] at h
        obtain ⟨rfl, -⟩ := h.of_done
        exact .inr ⟨[], status, by simp, by simp [Busy], hbusy, rfl⟩

theorem sent (h : Execution (writeByte true b) t ()) : Sent b t := by
  obtain ⟨t₁, t₂, ⟨⟩, rfl, hwait, hout⟩ := h.of_bind
  cases hout with
  | call hdone =>
    obtain ⟨rfl, -⟩ := hdone.of_done
    obtain ⟨looks, hlength, hbusy, rfl⟩ | ⟨looks, status, hlength, hbusy, hempty, rfl⟩ := waited hwait
    · exact .stalled hlength hbusy
    · rw [List.append_assoc]
      exact .ready hlength hbusy hempty

theorem spelled (h : Execution (bytes.forM fun b => do
    if b = 10 then writeByte true 13
    writeByte true b) t ()) : Spelled (Log.spaced bytes) t := by
  induction bytes generalizing t with
  | nil =>
    obtain ⟨rfl, -⟩ := h.of_done
    exact .nil
  | cons b bytes ih =>
    obtain ⟨t₁, u, ⟨⟩, rfl, hfirst, hrest⟩ := h.of_bind
    have happend : Log.spaced (b :: bytes) = Log.spaced [b] ++ Log.spaced bytes := Log.spaced_append [b] bytes
    rw [happend]
    refine Spelled.append ?_ (ih hrest)
    by_cases hfeed : b = 10
    · subst hfeed
      obtain ⟨t₂, t₃, ⟨⟩, rfl, hreturn, hfeed⟩ := hfirst.of_bind
      exact (Spelled.single (sent hreturn)).append (.single (sent hfeed))
    · have hone : Log.spaced [b] = [b] := by simp [Log.spaced, hfeed]
      simp only [hfeed, ↓reduceIte] at hfirst
      rw [hone]
      exact .single (sent hfirst)

theorem spelled_piece {piece : String} (h : Execution (writePiece true piece) t ()) :
    Spelled (Log.wire piece) t := spelled h

theorem writePiece_append (initialized : Bool) (s t : String) :
    writePiece initialized (s ++ t) = writePiece initialized s >>= fun _ => writePiece initialized t := by
  simp only [writePiece, Utf8.bytes_append, List.forM_eq_forM, List.forM_append]

theorem forM_writePiece (initialized : Bool) (pieces : List String) :
    pieces.forM (writePiece initialized) = writePiece initialized (String.join pieces) := by
  induction pieces with
  | nil => rfl
  | cons piece pieces ih => rw [String.join_cons, writePiece_append, ← ih]; rfl

theorem printPieces_join (initialized : Bool) (pieces : List String) :
    printPieces initialized [String.join pieces] = printPieces initialized pieces := by
  have hone : String.join [String.join pieces] = String.join pieces := by simp
  simp only [printPieces, forM_writePiece, hone]

/-- What happens with the interrupt flag clear. -/
def bracketed (wasEnabled : Bool) (t : History Cpu) : History Cpu :=
  [⟨.readFlag, wasEnabled⟩] ++ (if wasEnabled then [⟨.clearFlag, ()⟩] else []) ++ t ++
    (if wasEnabled then [⟨.setFlag, ()⟩] else [])

theorem printed {pieces : List String} (h : Execution (printPieces true pieces) t ()) :
    ∃ wasEnabled u, t = bracketed wasEnabled u ∧ Spelled (Log.wire (String.join pieces)) u := by
  rw [← printPieces_join] at h
  cases h with
  | @call _ _ wasEnabled _ _ h =>
    cases wasEnabled with
    | false =>
      replace h : Execution ((writePiece true (String.join pieces) >>= pure) >>= pure) _ () := h
      rw [bind_pure, bind_pure] at h
      exact ⟨false, _, by simp [bracketed], spelled_piece h⟩
    | true =>
      replace h : Execution (Cpu.clearFlag >>= fun _ =>
        (writePiece true (String.join pieces) >>= pure) >>= fun _ => Cpu.setFlag) _ () := h
      rw [bind_pure] at h
      obtain ⟨t₁, t₂, ⟨⟩, rfl, hclear, h⟩ := h.of_bind
      obtain ⟨u, t₃, ⟨⟩, rfl, hpiece, hset⟩ := h.of_bind
      cases hclear with
      | call hclear =>
        cases hset with
        | call hset =>
          obtain ⟨rfl, -⟩ := hclear.of_done
          obtain ⟨rfl, -⟩ := hset.of_done
          exact ⟨true, u, by simp [bracketed], spelled_piece hpiece⟩

/-- The same with each text in one piece. -/
def Entry.whole : Entry → Entry
  | .limit max => .limit max
  | .record level target text => .record level target [String.join text]
  | .plain pieces => .plain [String.join pieces]

/-- Nothing is at most as talkative as no level. -/
def maxRank (max : Log.Threshold) : Nat := max.elim 0 Log.Level.rank

theorem admits_iff {max : Log.Threshold} {level : Log.Level} :
    max.admits level = true ↔ level.rank ≤ maxRank max := by
  cases max with
  | none => cases level <;> simp [Log.Threshold.admits, maxRank, Log.Level.rank]
  | some top => simp [Log.Threshold.admits, maxRank]

/-- The texts that are to be seen, one for each record that is let through and each other text. -/
def shown : Log.Threshold → List Entry → List String
  | _, [] => []
  | _, .limit max :: rest => shown max rest
  | max, .record level target text :: rest =>
    (if level.rank ≤ maxRank max then [Log.Record.line ⟨level, target, String.join text⟩] else []) ++ shown max rest
  | max, .plain pieces :: rest => String.join pieces :: shown max rest

/-- Texts that go out one after the other, each with the flag clear. -/
inductive Written : List String → History Cpu → Prop
  | nil : Written [] []
  | cons {text : String} {texts : List String} {wasEnabled : Bool} {t u : History Cpu}
      (first : Spelled (Log.wire text) t) (rest : Written texts u) :
      Written (text :: texts) (bracketed wasEnabled t ++ u)

variable {T T' : Terminal} {e : Entry} {entries : List Entry}

theorem join_linePieces (level : Log.Level) (target : String) (text : List String) :
    String.join (Log.linePieces level target text) = Log.Record.line ⟨level, target, String.join text⟩ := by
  simp [Log.linePieces, Log.Record.line, String.append_assoc]

theorem take_whole (T : Terminal) (e : Entry) : T.take e.whole = T.take e := by
  cases e with
  | limit max => rfl
  | record level target text =>
    have hline : printPieces T.initialized (Log.linePieces level target [String.join text]) =
        printPieces T.initialized (Log.linePieces level target text) := by
      rw [← printPieces_join, ← printPieces_join _ (Log.linePieces level target text), join_linePieces,
        join_linePieces]
      simp
    simp only [Entry.whole, Terminal.take, hline]
  | plain pieces => simp only [Entry.whole, Terminal.take, printPieces_join]

theorem takeAll_whole (T : Terminal) (entries : List Entry) :
    T.takeAll (entries.map Entry.whole) = T.takeAll entries := by
  induction entries generalizing T with
  | nil => rfl
  | cons e entries ih => simp only [List.map_cons, Terminal.takeAll, take_whole, ih]

theorem Written.append {texts more : List String} (ht : Written texts t) (hu : Written more u) :
    Written (texts ++ more) (t ++ u) := by
  induction ht with
  | nil => exact hu
  | cons first rest ih =>
    rw [List.cons_append, List.append_assoc]
    exact .cons first ih

theorem written_pieces {pieces : List String} (h : Execution (printPieces true pieces) t ()) :
    Written [String.join pieces] t := by
  obtain ⟨wasEnabled, u, rfl, hu⟩ := printed h
  rw [← List.append_nil (bracketed wasEnabled u)]
  exact .cons hu .nil

/-- What one entry shows, and the terminal after it. -/
theorem written_entry (hinit : T.initialized = true) (h : Execution (T.take e) t T') :
    T'.initialized = true ∧ ∃ texts, Written texts t ∧
      ∀ rest, shown T.max (e :: rest) = texts ++ shown T'.max rest := by
  cases e with
  | limit max =>
    obtain ⟨rfl, rfl⟩ := h.of_done
    exact ⟨hinit, [], .nil, fun rest => rfl⟩
  | plain pieces =>
    obtain ⟨t, u, ⟨⟩, rfl, hprint, hdone⟩ := h.of_bind
    obtain ⟨rfl, rfl⟩ := hdone.of_done
    rw [hinit] at hprint
    rw [List.append_nil]
    exact ⟨hinit, _, written_pieces hprint, fun rest => rfl⟩
  | record level target text =>
    by_cases hadmits : T.max.admits level = true
    · simp only [Terminal.take, hadmits, ↓reduceIte, hinit] at h
      obtain ⟨t, u, ⟨⟩, rfl, hprint, hdone⟩ := h.of_bind
      obtain ⟨rfl, rfl⟩ := hdone.of_done
      rw [List.append_nil]
      refine ⟨hinit, _, written_pieces hprint, fun rest => ?_⟩
      rw [shown, if_pos (admits_iff.mp hadmits), join_linePieces]
    · simp only [Terminal.take, hadmits] at h
      obtain ⟨rfl, rfl⟩ := h.of_done
      refine ⟨hinit, [], .nil, fun rest => ?_⟩
      rw [shown, if_neg (mt admits_iff.mpr hadmits)]

theorem written (hinit : T.initialized = true) (h : Execution (T.takeAll entries) t T') :
    Written (shown T.max entries) t := by
  induction entries generalizing T t with
  | nil =>
    obtain ⟨rfl, -⟩ := h.of_done
    exact .nil
  | cons e entries ih =>
    obtain ⟨t, u, T₁, rfl, htake, hrest⟩ := h.of_bind
    obtain ⟨hinit, texts, htexts, hshown⟩ := written_entry hinit htake
    rw [hshown]
    exact htexts.append (ih hinit hrest)

/-- The byte that a call puts on the line. -/
def sentByte (e : Exchange Cpu) : Option UInt8 :=
  match e.call with
  | .output port value => if port = dataPort then some value else none
  | _ => none

def sentBytes (t : History Cpu) : List UInt8 := t.filterMap sentByte

theorem sentBytes_append (t u : History Cpu) : sentBytes (t ++ u) = sentBytes t ++ sentBytes u :=
  List.filterMap_append

theorem sentBytes_glances (looks : List UInt8) : sentBytes (glances looks) = [] := by
  simp [sentBytes, glances, sentByte]

theorem Sent.sentBytes (h : Sent b t) : sentBytes t = [b] := by
  cases h <;> rw [sentBytes_append, sentBytes_glances] <;> rfl

theorem Spelled.sentBytes (h : Spelled bytes t) : sentBytes t = bytes := by
  induction h with
  | nil => rfl
  | cons first rest ih => rw [sentBytes_append, first.sentBytes, ih, List.singleton_append]

theorem sentBytes_bracketed (wasEnabled : Bool) (t : History Cpu) :
    sentBytes (bracketed wasEnabled t) = sentBytes t := by
  cases wasEnabled with
  | false => rw [bracketed, sentBytes_append, sentBytes_append]; exact List.append_nil _
  | true => rw [bracketed, sentBytes_append, sentBytes_append]; exact List.append_nil _

theorem Written.sentBytes {texts : List String} (h : Written texts t) : sentBytes t = texts.flatMap Log.wire := by
  induction h with
  | nil => rfl
  | cons first rest ih =>
    rw [sentBytes_append, sentBytes_bracketed, first.sentBytes, ih, List.flatMap_cons]

/-- The writes that set the port up. -/
def setUpWrites : History Cpu :=
  [⟨.output interruptPort 0x00, ()⟩, ⟨.output linePort 0x80, ()⟩, ⟨.output dataPort 0x01, ()⟩,
    ⟨.output interruptPort 0x00, ()⟩, ⟨.output linePort 0x03, ()⟩, ⟨.output fifoPort 0xC7, ()⟩,
    ⟨.output modemPort 0x0B, ()⟩]

theorem settled (h : Execution (T.setUp) t T') : t = setUpWrites ∧ T' = { T with initialized := true } := by
  cases h with | call h => cases h with | call h => cases h with | call h => cases h with | call h =>
  cases h with | call h => cases h with | call h => cases h with | call h =>
  obtain ⟨rfl, rfl⟩ := h.of_done
  exact ⟨rfl, rfl⟩

/-- Once the port is set up, each text that is to be seen goes out whole and in its place, byte by byte, at
the first look that sees the transmitter empty or after the last one. It makes no difference in which pieces
the texts came, and they can be read back from the line. -/
theorem serial_lossless (T : Terminal) (entries : List Entry) :
    (∀ others : List Entry, others.map Entry.whole = entries.map Entry.whole →
      T.takeAll others = T.takeAll entries) ∧
    ∀ (t : History Cpu) (T' : Terminal), Execution (do (← T.setUp).takeAll entries) t T' →
      ∃ u, t = setUpWrites ++ u ∧
        Written (shown T.max entries) u ∧
        sentBytes u = (shown T.max entries).flatMap Log.wire ∧
        Log.unspaced (sentBytes u) = Utf8.bytes (String.join (shown T.max entries)) := by
  constructor
  · intro others hwhole
    rw [← takeAll_whole T others, hwhole, takeAll_whole]
  · intro t T' h
    obtain ⟨t₁, u, T₁, rfl, hsetUp, htake⟩ := h.of_bind
    obtain ⟨rfl, rfl⟩ := settled hsetUp
    have hwritten := written (T := { T with initialized := true }) rfl htake
    refine ⟨u, rfl, hwritten, hwritten.sentBytes, ?_⟩
    rw [hwritten.sentBytes, ← Log.wire_join, Log.wire_eq, Log.unspaced_spaced]

/-- A record of two lines in three pieces, one that is not let through, and a text that ends a line in its own
way. -/
theorem serial_lossless_lines :
    let T : Terminal := { max := some .info }
    let entries := [Entry.record .warn "a" ["b", "\n", "c"], .limit none, .record .error "a" ["d"], .plain ["\r\n"]]
    T.takeAll [Entry.record .warn "a" ["b\nc"], .limit none, .record .error "a" ["d"], .plain ["\r", "\n"]] =
        T.takeAll entries ∧
      ∃ u T', Execution (do (← T.setUp).takeAll entries) (setUpWrites ++ u) T' ∧
        Log.unspaced (sentBytes u) = Utf8.bytes "[\x1b[33mWARN\x1b[0m ] a: b\nc\n\r\n" := by
  intro T entries
  have hlossless := serial_lossless T entries
  have hran := Program.execution_run Emulated.bare (do (← T.setUp).takeAll entries) {}
  obtain ⟨u, hsplit, -, -, hread⟩ := hlossless.2 _ _ hran
  rw [hsplit] at hran
  refine ⟨hlossless.1 _ (by decide +kernel), u, _, hran, hread.trans ?_⟩
  decide +kernel

end Pc.SerialPort

end Diskette
