import Mathlib.Data.List.TakeWhile
import SpecSw.Library.Run

/-!
# The terminal of `spec-vuart`

The UART of the card has a port for the host beside the serial line. What the host writes to
`HOST_TDR` is for the firmware, and `RX_RDY` in the status register tells that it has not been read
yet; what the firmware transmits waits in a buffer, from which `HOST_RDR` takes one byte for each
read. The terminal passes the bytes typed to the one and prints what comes from the other. It is
left by C-a, or when its input ends, after it has printed what is there.

The terminal waits for the firmware before it writes a byte, in a loop that nothing else ends: it
cannot be left if more than one of the bytes typed has not been read (`canLeave_iff`).

## Main definitions

* `Tools.Vuart`: the host port, by its registers.
* `Tools.Term`, `Tools.TermEvent`, `Tools.Term.step`: the terminal, the port and the firmware.

## Main results

* `Tools.Term.term_pipe`, `Tools.Term.canLeave_iff`.
-/

namespace SpecSw.Tools

open EventRun

/-! ### The host port -/

/-- The host port of the UART. -/
structure Vuart where
  /-- The byte for the firmware. -/
  rdr : BitVec 8
  /-- It has not been read. -/
  rxRdy : Bool
  /-- The bytes for the host. -/
  hostBuf : List (BitVec 8)

/-- `UART_SR_TX_BUSY`. -/
def uartSrTxBusy : BitVec 32 := 1 <<< 0

/-- `UART_SR_RX_RDY`. -/
def uartSrRxRdy : BitVec 32 := 1 <<< 1

/-- `UART_HOST_RDR_RDY`. -/
def uartHostRdrRdy : BitVec 32 := 1 <<< 8

/-- `UART_HOST_RDR_DATA_R`. -/
def uartHostRdrData (reg : BitVec 32) : BitVec 32 := reg >>> 0 &&& ((1 <<< 8) - 1)

/-- `UART_HOST_TDR_DATA_W`. -/
def uartHostTdrData (value : BitVec 32) : BitVec 32 := (value &&& ((1 <<< 8) - 1)) <<< 0

namespace Vuart

/-- `SR`; `busy` tells about the serial line. -/
def sr (u : Vuart) (busy : Bool) : BitVec 32 :=
  (if busy then uartSrTxBusy else 0) ||| if u.rxRdy then uartSrRxRdy else 0

/-- A read of `HOST_RDR`. -/
def readHostRdr (u : Vuart) : BitVec 32 × Vuart :=
  match u.hostBuf with
  | [] => (0, u)
  | c :: rest => (c.setWidth 32 ||| uartHostRdrRdy, { u with hostBuf := rest })

/-- A write to `HOST_TDR`. -/
def writeHostTdr (u : Vuart) (value : BitVec 32) : Vuart :=
  { u with rdr := value.setWidth 8, rxRdy := true }

end Vuart

/-- `vuart_rx`, for what `HOST_RDR` reads as. -/
def vuartRx (rdr : BitVec 32) : ℤ :=
  if rdr &&& uartHostRdrRdy ≠ 0 then (uartHostRdrData rdr).toInt else -1

/-- The byte that `spec_vuart_rx` puts into the buffer, if `vuart_rx` does not fail. -/
def specVuartRx (rdr : BitVec 32) : Option (BitVec 8) :=
  if vuartRx rdr < 0 then none else some (BitVec.ofInt 8 (vuartRx rdr))

/-! ### The terminal -/

/-- What the terminal does next. -/
inductive TermAt
  | select
  /-- In the loop of `vuart_tx`. -/
  | poll (c : BitVec 8)
  /-- The write to `HOST_TDR`. -/
  | write (c : BitVec 8)
  /-- Prints what has come; then the main loop goes on if `need_exit` is zero. -/
  | print (needExit : ℤ)
  | left
  deriving DecidableEq, Repr

/-- The byte that the terminal has taken from its input and not written yet. -/
def TermAt.hand : TermAt → List (BitVec 8)
  | poll c => [c]
  | write c => [c]
  | _ => []

/-- The terminal is being left, or has been. -/
def TermAt.Leaving : TermAt → Prop
  | print needExit => needExit ≠ 0
  | left => True
  | _ => False

instance : DecidablePred TermAt.Leaving
  | .select => isFalse not_false
  | .poll _ => isFalse not_false
  | .write _ => isFalse not_false
  | .print needExit => inferInstanceAs (Decidable (needExit ≠ 0))
  | .left => isTrue trivial

/-- The terminal with its input, and the port. What has been typed, read and transmitted by the
firmware, and printed is recorded. -/
structure Term where
  uart : Vuart
  next : TermAt
  input : List (BitVec 8)
  hangup : Bool
  typed : List (BitVec 8)
  received : List (BitVec 8)
  transmitted : List (BitVec 8)
  printed : List (BitVec 8)

/-- What happens: a byte is typed, the input ends, `select` times out, the terminal goes on, the
firmware reads the byte for it or transmits one. -/
inductive TermEvent
  | type (c : BitVec 8)
  | hangup
  | timeout
  | term (busy : Bool)
  | read
  | transmit (c : BitVec 8)
  deriving DecidableEq, Repr

/-- C-a. -/
def ctrlA : BitVec 8 := 0x01

namespace Term

def start : Term := ⟨⟨0, false, []⟩, .select, [], false, [], [], [], []⟩

/-- `transfer_byte`, up to `vuart_tx`, when there is input or it has ended. -/
def transferByte (s : Term) : Term :=
  match s.input with
  | [] => { s with next := .print (-2) }
  | c :: rest => { s with input := rest, next := if c = ctrlA then .print (-1) else .poll c }

/-- The terminal goes on to its next access. -/
def goOn (busy : Bool) (s : Term) : Term :=
  match s.next with
  | .select => if s.input = [] ∧ s.hangup = false then s else s.transferByte
  | .poll c => if s.uart.sr busy &&& uartSrRxRdy ≠ 0 then s else { s with next := .write c }
  | .write c =>
    { s with uart := s.uart.writeHostTdr (uartHostTdrData (c.signExtend 32)), next := .print 0 }
  | .print needExit =>
    let (rdr, uart) := s.uart.readHostRdr
    match specVuartRx rdr with
    | some c => { s with uart := uart, printed := s.printed ++ [c] }
    | none => { s with uart := uart, next := if needExit = 0 then .select else .left }
  | .left => s

/-- Each event; the buffer for the host takes `size` bytes. -/
def step (size : ℕ) (s : Term) : TermEvent → Term
  | .type c =>
    if s.hangup then s else { s with input := s.input ++ [c], typed := s.typed ++ [c] }
  | .hangup => { s with hangup := true }
  | .timeout => if s.next = .select then { s with next := .print 0 } else s
  | .term busy => s.goOn busy
  | .read =>
    if s.uart.rxRdy then
      { s with uart := { s.uart with rxRdy := false }, received := s.received ++ [s.uart.rdr] }
    else s
  | .transmit c =>
    if s.uart.hostBuf.length < size then
      { s with
        uart := { s.uart with hostBuf := s.uart.hostBuf ++ [c] }
        transmitted := s.transmitted ++ [c] }
    else s

/-- The byte that the firmware has not read. -/
def unread (s : Term) : List (BitVec 8) := if s.uart.rxRdy then [s.uart.rdr] else []

/-- What the terminal still has to pass to the firmware. -/
def toPass (s : Term) : List (BitVec 8) :=
  if s.next.Leaving then [] else s.next.hand ++ s.input.takeWhile (· ≠ ctrlA)

/-- What has been typed and not been read by the firmware. -/
def outstanding (s : Term) : ℕ := (s.unread ++ s.toPass).length

end Term

/-! ### The registers -/

theorem specVuartRx_cons (c : BitVec 8) :
    specVuartRx (c.setWidth 32 ||| uartHostRdrRdy) = some c := by
  revert c
  decide +kernel

theorem setWidth_uartHostTdrData (c : BitVec 8) :
    (uartHostTdrData (c.signExtend 32)).setWidth 8 = c := by
  revert c
  decide +kernel

theorem sr_and_rxRdy (u : Vuart) (busy : Bool) :
    u.sr busy &&& uartSrRxRdy ≠ 0 ↔ u.rxRdy = true := by
  rw [Vuart.sr]
  generalize u.rxRdy = rdy
  revert busy rdy
  decide

namespace Term

variable {s : Term} {busy : Bool}

/-! ### What one step does -/

theorem goOn_print_cons {needExit : ℤ} (hnext : s.next = .print needExit) {c : BitVec 8}
    {rest : List (BitVec 8)} (hbuf : s.uart.hostBuf = c :: rest) :
    s.goOn busy =
      { s with uart := { s.uart with hostBuf := rest }, printed := s.printed ++ [c] } := by
  simp only [goOn, hnext, Vuart.readHostRdr, hbuf, specVuartRx_cons]

theorem goOn_print_nil {needExit : ℤ} (hnext : s.next = .print needExit)
    (hbuf : s.uart.hostBuf = []) :
    s.goOn busy = { s with next := if needExit = 0 then .select else .left } := by
  simp only [goOn, hnext, Vuart.readHostRdr, hbuf]
  rfl

theorem goOn_poll_free {c : BitVec 8} (hnext : s.next = .poll c) (hrdy : s.uart.rxRdy = false) :
    s.goOn busy = { s with next := .write c } := by
  have hclear : ¬ (s.uart.sr busy &&& uartSrRxRdy ≠ 0) := by
    rw [sr_and_rxRdy, hrdy]
    exact Bool.false_ne_true
  simp only [goOn, hnext, if_neg hclear]

theorem goOn_poll_full {c : BitVec 8} (hnext : s.next = .poll c) (hrdy : s.uart.rxRdy = true) :
    s.goOn busy = s := by
  simp only [goOn, hnext, if_pos ((sr_and_rxRdy s.uart busy).mpr hrdy)]

theorem goOn_write {c : BitVec 8} (hnext : s.next = .write c) :
    s.goOn busy =
      { s with uart := { s.uart with rdr := c, rxRdy := true }, next := .print 0 } := by
  simp only [goOn, hnext, Vuart.writeHostTdr, setWidth_uartHostTdrData]

theorem goOn_select_nil (hnext : s.next = .select) (hinput : s.input = []) :
    s.goOn busy = if s.hangup then { s with next := .print (-2) } else s := by
  cases hhangup : s.hangup with
  | true => simp [goOn, hnext, hinput, hhangup, transferByte]
  | false => simp [goOn, hnext, hinput, hhangup]

theorem goOn_select_cons (hnext : s.next = .select) {c : BitVec 8} {rest : List (BitVec 8)}
    (hinput : s.input = c :: rest) :
    s.goOn busy =
      { s with input := rest, next := if c = ctrlA then .print (-1) else .poll c } := by
  simp [goOn, hnext, hinput, transferByte]

/-! ### The bytes typed -/

/-- What has been written to the port. -/
def passed (s : Term) : List (BitVec 8) := s.received ++ s.unread

theorem takeWhile_append_of_mem {α : Type*} [DecidableEq α] {a : α} {l : List α} (h : a ∈ l)
    (l' : List α) : (l ++ l').takeWhile (· ≠ a) = l.takeWhile (· ≠ a) := by
  rw [List.takeWhile_append, if_neg]
  intro hlength
  have hself := (List.takeWhile_prefix _).eq_of_length hlength
  exact of_decide_eq_true (List.takeWhile_eq_self_iff.mp hself a h) rfl

theorem length_takeWhile_le_append {α : Type*} (p : α → Bool) (l l' : List α) :
    (l.takeWhile p).length ≤ ((l ++ l').takeWhile p).length := by
  rw [List.takeWhile_append]
  split_ifs
  · rw [List.length_append]
    exact (List.takeWhile_sublist p).length_le.trans (Nat.le_add_right _ _)
  · exact le_rfl

/-- What has been typed is on its way, up to C-a, and what has been transmitted is printed. -/
structure Piped (s : Term) : Prop where
  plain : ∀ c ∈ s.passed ++ s.next.hand, c ≠ ctrlA
  order : ¬ s.next.Leaving → s.typed = s.passed ++ s.next.hand ++ s.input
  ended : s.next.Leaving →
    s.typed.takeWhile (· ≠ ctrlA) = s.passed ∧ (ctrlA ∈ s.typed ∨ s.hangup = true)
  free : ∀ c, s.next = .write c → s.uart.rxRdy = false
  printed : s.printed ++ s.uart.hostBuf = s.transmitted

theorem piped_start : Piped start :=
  ⟨fun _ hc => absurd hc List.not_mem_nil, fun _ => rfl, fun h => h.elim, fun _ _ => rfl, rfl⟩

namespace Piped

theorem takeWhile_plain {l : List (BitVec 8)} (h : ∀ c ∈ l, c ≠ ctrlA) (l' : List (BitVec 8)) :
    (l ++ l').takeWhile (· ≠ ctrlA) = l ++ l'.takeWhile (· ≠ ctrlA) :=
  List.takeWhile_append_of_pos fun c hc => decide_eq_true (h c hc)

/-- What the firmware is to get: what it has read, what waits in the port, and what the terminal
still has to pass. -/
theorem takeWhile_typed (h : Piped s) :
    s.typed.takeWhile (· ≠ ctrlA) = s.received ++ (s.unread ++ s.toPass) := by
  rw [toPass]
  split_ifs with hleaving
  · rw [(h.ended hleaving).1, passed, List.append_nil]
  · rw [h.order hleaving, takeWhile_plain h.plain, passed]
    simp only [List.append_assoc]

/-- The terminal takes C-a, another byte, or the end of its input. -/
theorem goOn_select (h : Piped s) (hnext : s.next = .select) (busy : Bool) :
    Piped (s.goOn busy) := by
  have horder : s.typed = s.passed ++ [] ++ s.input := by
    have horder := h.order (hnext ▸ not_false)
    rwa [hnext] at horder
  have hplain : ∀ c ∈ s.passed, c ≠ ctrlA := fun c hc => h.plain c (List.mem_append_left _ hc)
  rw [List.append_nil] at horder
  cases hinput : s.input with
  | nil =>
    rw [hinput] at horder
    rw [goOn_select_nil hnext hinput]
    split_ifs with hhangup
    · refine ⟨by simpa [TermAt.hand, passed, unread] using hplain,
        fun hno => (hno (by simp [TermAt.Leaving])).elim, fun _ => ⟨?_, .inr hhangup⟩,
        fun _ hc => by simp at hc, h.printed⟩
      change s.typed.takeWhile (· ≠ ctrlA) = s.passed
      rw [horder, takeWhile_plain hplain, List.takeWhile_nil, List.append_nil]
    · exact h
  | cons c rest =>
    rw [hinput] at horder
    rw [goOn_select_cons hnext hinput]
    split_ifs with hc
    · subst hc
      refine ⟨by simpa [TermAt.hand, passed, unread] using hplain,
        fun hno => (hno (by simp [TermAt.Leaving])).elim, fun _ => ⟨?_, .inl ?_⟩,
        fun _ hc => by simp at hc, h.printed⟩
      · change s.typed.takeWhile (· ≠ ctrlA) = s.passed
        rw [horder, takeWhile_plain hplain, List.takeWhile_cons_of_neg (by simp), List.append_nil]
      · change ctrlA ∈ s.typed
        rw [horder]
        exact List.mem_append_right _ List.mem_cons_self
    · refine ⟨fun d hd => ?_, fun _ => ?_, fun hno => hno.elim, fun _ hc => by simp at hc,
        h.printed⟩
      · rcases List.mem_append.mp hd with hd | hd
        · exact hplain d hd
        · rw [List.mem_singleton.mp hd]
          exact hc
      · change s.typed = s.passed ++ [c] ++ rest
        rw [horder, List.append_assoc, List.singleton_append]

theorem goOn_poll (h : Piped s) {c : BitVec 8} (hnext : s.next = .poll c) (busy : Bool) :
    Piped (s.goOn busy) := by
  cases hrdy : s.uart.rxRdy with
  | true => rwa [goOn_poll_full hnext hrdy]
  | false =>
    have horder := h.order (hnext ▸ not_false)
    have hplain := h.plain
    rw [hnext] at horder hplain
    rw [goOn_poll_free hnext hrdy]
    exact ⟨hplain, fun _ => horder, fun hno => hno.elim, fun _ _ => hrdy, h.printed⟩

/-- The byte goes into a port that is free. -/
theorem goOn_write (h : Piped s) {c : BitVec 8} (hnext : s.next = .write c) (busy : Bool) :
    Piped (s.goOn busy) := by
  have hpassed : s.passed = s.received := by
    rw [passed, unread, h.free c hnext, if_neg Bool.false_ne_true, List.append_nil]
  have horder := h.order (hnext ▸ not_false)
  have hplain := h.plain
  rw [hnext, hpassed] at horder hplain
  rw [Term.goOn_write hnext]
  refine ⟨?_, fun _ => ?_, fun hno => (hno rfl).elim, fun _ hd => by simp at hd, h.printed⟩
  · simpa [passed, unread, TermAt.hand] using hplain
  · simpa [passed, unread, TermAt.hand] using horder

theorem goOn_print (h : Piped s) {needExit : ℤ} (hnext : s.next = .print needExit)
    (busy : Bool) : Piped (s.goOn busy) := by
  cases hbuf : s.uart.hostBuf with
  | cons c rest =>
    have hprinted := h.printed
    rw [hbuf] at hprinted
    rw [goOn_print_cons hnext hbuf]
    refine ⟨h.plain, h.order, h.ended, h.free, ?_⟩
    rw [← hprinted, List.append_assoc, List.singleton_append]
  | nil =>
    have horder := h.order
    have hended := h.ended
    have hplain := h.plain
    rw [hnext] at horder hended hplain
    rw [goOn_print_nil hnext hbuf]
    split_ifs with hzero
    · exact ⟨hplain, fun _ => horder fun hl => hl hzero, fun hno => hno.elim,
        fun _ hc => by simp at hc, h.printed⟩
    · exact ⟨hplain, fun hno => (hno trivial).elim, fun _ => hended hzero,
        fun _ hc => by simp at hc, h.printed⟩

theorem goOn (h : Piped s) (busy : Bool) : Piped (s.goOn busy) := by
  cases hnext : s.next with
  | select => exact h.goOn_select hnext busy
  | poll c => exact h.goOn_poll hnext busy
  | write c => exact h.goOn_write hnext busy
  | print needExit => exact h.goOn_print hnext busy
  | left =>
    have hstay : s.goOn busy = s := by simp only [Term.goOn, hnext]
    rwa [hstay]

theorem step (h : Piped s) (size : ℕ) (e : TermEvent) : Piped (s.step size e) := by
  cases e with
  | type c =>
    simp only [Term.step]
    split_ifs with hhangup
    · exact h
    · refine ⟨h.plain, fun hgoes => ?_, fun hleaving => ?_, h.free, h.printed⟩
      · change s.typed ++ [c] = s.passed ++ s.next.hand ++ (s.input ++ [c])
        rw [h.order hgoes, List.append_assoc]
      · obtain ⟨htyped, hmem⟩ := h.ended hleaving
        have hctrlA := hmem.resolve_right hhangup
        refine ⟨?_, .inl (List.mem_append_left _ hctrlA)⟩
        change (s.typed ++ [c]).takeWhile (· ≠ ctrlA) = s.passed
        rw [takeWhile_append_of_mem hctrlA, htyped]
  | hangup => exact ⟨h.plain, h.order, fun hl => ⟨(h.ended hl).1, .inr rfl⟩, h.free, h.printed⟩
  | timeout =>
    simp only [Term.step]
    split_ifs with hnext
    · have horder := h.order (hnext ▸ not_false)
      have hplain := h.plain
      rw [hnext] at horder hplain
      exact ⟨hplain, fun _ => horder, fun hno => (hno rfl).elim, fun _ hc => by simp at hc,
        h.printed⟩
    · exact h
  | term busy => exact h.goOn busy
  | read =>
    simp only [Term.step]
    split_ifs with hrdy
    · have hpassed : (s.received ++ [s.uart.rdr]) ++ [] = s.passed := by
        rw [passed, unread, if_pos hrdy, List.append_nil]
      refine ⟨?_, fun hgoes => ?_, fun hleaving => ?_, fun _ _ => rfl, h.printed⟩
      · change ∀ c ∈ (s.received ++ [s.uart.rdr]) ++ [] ++ s.next.hand, c ≠ ctrlA
        rw [hpassed]
        exact h.plain
      · change s.typed = (s.received ++ [s.uart.rdr]) ++ [] ++ s.next.hand ++ s.input
        rw [hpassed]
        exact h.order hgoes
      · change s.typed.takeWhile (· ≠ ctrlA) = (s.received ++ [s.uart.rdr]) ++ [] ∧ _
        rw [hpassed]
        exact h.ended hleaving
    · exact h
  | transmit c =>
    simp only [Term.step]
    split_ifs
    · refine ⟨h.plain, h.order, h.ended, h.free, ?_⟩
      change s.printed ++ (s.uart.hostBuf ++ [c]) = s.transmitted ++ [c]
      rw [← List.append_assoc, h.printed]
    · exact h

end Piped

theorem piped_run (size : ℕ) (es : List TermEvent) : Piped (run (step size) start es) :=
  @run_invariant _ _ (step size) (fun _ s => Piped s) start piped_start
    (fun _ _ e h => h.step size e) es

/-- **The terminal is a pipe in each direction.** What has been typed before C-a is what the
firmware has read, the byte in the port, and what the terminal still has to pass; when the terminal
has been left, there is nothing of the last. What has been printed and what waits in the port is
what the firmware has transmitted and the port had room for. -/
theorem term_pipe (size : ℕ) (es : List TermEvent) :
    let s := run (step size) start es
    s.typed.takeWhile (· ≠ ctrlA) = s.received ++ (s.unread ++ s.toPass) ∧
      (s.next = .left → s.toPass = []) ∧
      s.printed ++ s.uart.hostBuf = s.transmitted := by
  intro s
  have h : Piped s := piped_run size es
  refine ⟨h.takeWhile_typed, fun hleft => ?_, h.printed⟩
  rw [toPass, if_pos]
  rw [hleft]
  trivial

/-! ### Leaving -/

/-- The terminal passes bytes on to the port. -/
theorem Piped.outstanding_goOn (h : Piped s) (busy : Bool) :
    (s.goOn busy).outstanding = s.outstanding := by
  cases hnext : s.next with
  | select =>
    cases hinput : s.input with
    | nil =>
      rw [goOn_select_nil hnext hinput]
      split_ifs with hhangup
      · simp [outstanding, toPass, unread, hnext, hinput, TermAt.Leaving, TermAt.hand]
      · rfl
    | cons c rest =>
      rw [goOn_select_cons hnext hinput]
      split_ifs with hc
      · simp [outstanding, toPass, unread, hnext, hinput, TermAt.Leaving, TermAt.hand, hc]
      · simp [outstanding, toPass, unread, hnext, hinput, TermAt.Leaving, TermAt.hand, hc]
  | poll c =>
    cases hrdy : s.uart.rxRdy with
    | true => rw [goOn_poll_full hnext hrdy]
    | false =>
      rw [goOn_poll_free hnext hrdy]
      simp [outstanding, toPass, unread, hnext, TermAt.Leaving, TermAt.hand]
  | write c =>
    rw [Term.goOn_write hnext]
    simp [outstanding, toPass, unread, hnext, TermAt.Leaving, TermAt.hand, h.free c hnext]
  | print needExit =>
    cases hbuf : s.uart.hostBuf with
    | cons c rest =>
      rw [goOn_print_cons hnext hbuf]
      rfl
    | nil =>
      rw [goOn_print_nil hnext hbuf]
      split_ifs with hzero
      · simp [outstanding, toPass, unread, hnext, TermAt.Leaving, TermAt.hand, hzero]
      · simp [outstanding, toPass, unread, hnext, TermAt.Leaving, hzero]
  | left =>
    have hstay : s.goOn busy = s := by simp only [Term.goOn, hnext]
    rw [hstay]

/-- Only the firmware takes them from there. -/
theorem Piped.outstanding_le_step (h : Piped s) (size : ℕ) {e : TermEvent} (he : e ≠ .read) :
    s.outstanding ≤ (s.step size e).outstanding := by
  cases e with
  | type c =>
    simp only [Term.step]
    split_ifs
    · exact le_rfl
    · have hlen := length_takeWhile_le_append (· ≠ ctrlA) s.input [c]
      by_cases hleaving : s.next.Leaving
      · simp [outstanding, toPass, unread, hleaving]
      · simp only [outstanding, toPass, unread, hleaving, if_false, List.length_append]
        omega
  | hangup => exact le_rfl
  | timeout =>
    simp only [Term.step]
    split_ifs with hnext
    · simp [outstanding, toPass, unread, hnext, TermAt.Leaving, TermAt.hand]
    · exact le_rfl
  | term busy => exact (h.outstanding_goOn busy).ge
  | read => exact absurd rfl he
  | transmit c =>
    simp only [Term.step]
    split_ifs <;> exact le_rfl

/-- The input of the terminal ends, or has C-a in it, unless it is being left already. -/
def Ends (s : Term) : Prop := s.next.Leaving ∨ s.hangup = true ∨ ctrlA ∈ s.input

/-- How many accesses there are until the terminal is left, at most. -/
def work (s : Term) : ℕ :=
  s.uart.hostBuf.length +
    match s.next with
    | .select => 2 + 4 * s.toPass.length
    | .poll _ => 1 + 4 * s.toPass.length
    | .write _ => 4 * s.toPass.length
    | .print needExit => if needExit = 0 then 3 + 4 * s.toPass.length else 1
    | .left => 0

theorem Ends.goOn (h : Ends s) (busy : Bool) : Ends (s.goOn busy) := by
  cases hnext : s.next with
  | select =>
    have hinput : s.hangup = true ∨ ctrlA ∈ s.input := h.resolve_left (hnext ▸ not_false)
    cases hcons : s.input with
    | nil =>
      rw [goOn_select_nil hnext hcons]
      split_ifs
      · exact .inl (by simp [TermAt.Leaving])
      · exact h
    | cons c rest =>
      rw [goOn_select_cons hnext hcons]
      split_ifs with hc
      · exact .inl (by simp [TermAt.Leaving])
      · rcases hinput with hhangup | hmem
        · exact .inr (.inl hhangup)
        · rw [hcons] at hmem
          exact .inr (.inr ((List.mem_cons.mp hmem).resolve_left (Ne.symm hc)))
  | poll c =>
    have hinput : s.hangup = true ∨ ctrlA ∈ s.input := h.resolve_left (hnext ▸ not_false)
    cases hrdy : s.uart.rxRdy with
    | true => rwa [goOn_poll_full hnext hrdy]
    | false =>
      rw [goOn_poll_free hnext hrdy]
      exact .inr hinput
  | write c =>
    have hinput : s.hangup = true ∨ ctrlA ∈ s.input := h.resolve_left (hnext ▸ not_false)
    rw [Term.goOn_write hnext]
    exact .inr hinput
  | print needExit =>
    cases hbuf : s.uart.hostBuf with
    | cons c rest => rwa [goOn_print_cons hnext hbuf]
    | nil =>
      rw [goOn_print_nil hnext hbuf]
      split_ifs with hzero
      · have hinput : s.hangup = true ∨ ctrlA ∈ s.input :=
          h.resolve_left (by simp [hnext, TermAt.Leaving, hzero])
        exact .inr hinput
      · exact .inl trivial
  | left =>
    have hstay : s.goOn busy = s := by simp only [Term.goOn, hnext]
    rwa [hstay]

/-- With one byte outstanding at most, the terminal gets on. -/
theorem work_goOn (hout : s.outstanding ≤ 1) (hends : Ends s) (hleft : s.next ≠ .left)
    (busy : Bool) : (s.goOn busy).work < s.work := by
  cases hnext : s.next with
  | select =>
    have hinput : s.hangup = true ∨ ctrlA ∈ s.input := hends.resolve_left (hnext ▸ not_false)
    cases hcons : s.input with
    | nil =>
      have hhangup : s.hangup = true := hinput.resolve_right (hcons ▸ List.not_mem_nil)
      rw [goOn_select_nil hnext hcons, if_pos hhangup]
      simp [work, hnext]
      omega
    | cons c rest =>
      rw [goOn_select_cons hnext hcons]
      split_ifs with hc
      · simp [work, hnext]
        omega
      · simp [work, hnext, toPass, TermAt.Leaving, TermAt.hand, hcons, hc]
  | poll c =>
    have hrdy : s.uart.rxRdy = false := by
      by_contra hrdy
      have hfull : s.uart.rxRdy = true := by simpa using hrdy
      simp [outstanding, unread, toPass, hnext, TermAt.Leaving, TermAt.hand, hfull] at hout
    rw [goOn_poll_free hnext hrdy]
    simp [work, hnext, toPass, TermAt.Leaving, TermAt.hand]
  | write c =>
    rw [Term.goOn_write hnext]
    simp [work, hnext, toPass, TermAt.Leaving, TermAt.hand]
    omega
  | print needExit =>
    cases hbuf : s.uart.hostBuf with
    | cons c rest =>
      rw [goOn_print_cons hnext hbuf]
      simp [work, hnext, toPass, hbuf]
    | nil =>
      rw [goOn_print_nil hnext hbuf]
      split_ifs with hzero
      · simp [work, hnext, toPass, TermAt.Leaving, TermAt.hand, hbuf, hzero]
      · simp [work, hnext, hbuf, hzero]
  | left => exact absurd hnext hleft

/-- The terminal is left without the help of the firmware. -/
theorem exists_left (h : Piped s) (hout : s.outstanding ≤ 1) (hends : Ends s) (size : ℕ) :
    ∃ n, (run (step size) s (List.replicate n (.term false))).next = .left := by
  induction hwork : s.work using Nat.strong_induction_on generalizing s with
  | _ w ih =>
    by_cases hleft : s.next = .left
    · exact ⟨0, hleft⟩
    · have hless := work_goOn hout hends hleft false
      obtain ⟨n, hn⟩ := ih _ (hwork ▸ hless) (h.goOn false)
        ((h.outstanding_goOn false).le.trans hout) (hends.goOn false) rfl
      exact ⟨n + 1, hn⟩

theorem takeWhile_concat_ctrlA (l : List (BitVec 8)) :
    (l ++ [ctrlA]).takeWhile (· ≠ ctrlA) = l.takeWhile (· ≠ ctrlA) := by
  rw [List.takeWhile_append, List.takeWhile_cons_of_neg (by simp), List.append_nil]
  split_ifs with hlength
  · exact ((List.takeWhile_prefix _).eq_of_length hlength).symm
  · rfl

/-- **The terminal can be left exactly when one byte is outstanding at most.** Whatever is typed and
transmitted, and however long the terminal goes on, as long as the firmware does not read. -/
theorem canLeave_iff (size : ℕ) (es : List TermEvent) :
    let s := run (step size) start es
    (∃ es', (∀ e ∈ es', e ≠ .read) ∧ (run (step size) s es').next = .left) ↔
      s.outstanding ≤ 1 := by
  intro s
  have h : Piped s := piped_run size es
  constructor
  · rintro ⟨es', hes', hleft⟩
    have hmono : ∀ (es' : List TermEvent) (t : Term), Piped t → (∀ e ∈ es', e ≠ .read) →
        t.outstanding ≤ (run (step size) t es').outstanding := by
      intro es'
      induction es' with
      | nil => exact fun _ _ _ => le_rfl
      | cons e es' ih =>
        intro t ht hes'
        rw [List.forall_mem_cons] at hes'
        exact (ht.outstanding_le_step size hes'.1).trans (ih _ (ht.step size e) hes'.2)
    refine (hmono es' s h hes').trans ?_
    generalize run (step size) s es' = t at hleft
    rw [outstanding, toPass, if_pos (by rw [hleft]; trivial), List.append_nil, unread]
    split_ifs
    · exact le_rfl
    · exact Nat.zero_le 1
  · intro hout
    have htype : ∀ t, t = s.step size (.type ctrlA) → t.outstanding ≤ 1 ∧ Ends t := by
      rintro t rfl
      simp only [step]
      split_ifs with hhangup
      · exact ⟨hout, .inr (.inl hhangup)⟩
      · refine ⟨?_, .inr (.inr (List.mem_append_right _ List.mem_cons_self))⟩
        simpa only [outstanding, toPass, unread, takeWhile_concat_ctrlA] using hout
    obtain ⟨hout', hends⟩ := htype _ rfl
    obtain ⟨n, hn⟩ := exists_left (h.step size (.type ctrlA)) hout' hends size
    refine ⟨.type ctrlA :: List.replicate n (.term false), ?_, hn⟩
    intro e he
    rcases List.mem_cons.mp he with rfl | he
    · exact TermEvent.noConfusion
    · rw [List.eq_of_mem_replicate he]
      exact TermEvent.noConfusion

end Term

end SpecSw.Tools
