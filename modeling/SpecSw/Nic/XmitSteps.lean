import SpecSw.Nic.TxSystem

/-!
# Transmission step by step

`wrn_start_xmit` is to be called with the lock taken, but the lock is commented out: between two of
its steps a transmit-complete interrupt may run, and the hardware may complete a frame. Here a call
is the sequence of its steps, of which the last but one, the write of register 1, gives the
descriptor to the hardware. The network stack makes one call at a time.

Without anything between its steps, a call does what `wrnStartXmit` does (`run_startXmit`).

## Main definitions

* `Nic.XmitPc`, `Nic.Transmission`, `Nic.Transmission.exec`: a call and its steps.
* `Nic.XmitSystem`, `Nic.XmitSystem.step`, `Nic.XmitSystem.start`.

## Main results

* `Nic.XmitSystem.run_startXmit`.
-/

namespace SpecSw.Nic

open CyclicWindow EventRun

/-! ### A call in progress -/

/-- The step of `wrn_start_xmit` that comes next, once a descriptor has been allocated. -/
inductive XmitPc
  | drawId
  | saveSkb
  | saveFrameId
  | copyOut
  | writeTx3
  | writeTx2
  | writeTx1
  | account
  deriving DecidableEq, Repr

/-- The local variables `desc`, `id` and `skb` of a call, and where it is. -/
structure Transmission where
  desc : Desc
  id : BitVec 32
  skb : SkBuff
  pc : XmitPc

namespace Transmission

variable (f : Transmission)

/-- The value of register 1 that `__wrn_tx_desc` writes. -/
def tx1 : BitVec 32 :=
  (if f.skb.len < 60 then nicTx1PadE else 0) ||| nicTx1Ready |||
    (if f.skb.txFlags &&& skbtxHwTstamp != 0 then nicTx1TsE else 0) ||| f.id <<< 16

/-- The next step of a call: what is left of it, and the device afterwards. -/
def exec (wrn : WrnDev) : Option Transmission × WrnDev :=
  let offset := wrnDescOffset .tx f.desc
  match f.pc with
  | .drawId =>
    let (id, wrn) := wrnDrawId wrn
    (some { f with id := id, pc := .saveSkb }, wrn)
  | .saveSkb =>
    (some { f with pc := .saveFrameId },
      wrn.setDesc f.desc { wrn.skbDesc f.desc with skb := some f.skb })
  | .saveFrameId =>
    (some { f with pc := .copyOut },
      wrn.setDesc f.desc { wrn.skbDesc f.desc with frameId := f.id.setWidth 16 })
  | .copyOut =>
    (some { f with pc := .writeTx3 },
      { wrn with databuf := wrnCopyOut wrn.databuf offset f.skb.data f.skb.len })
  | .writeTx3 =>
    (some { f with pc := .writeTx2 },
      wrn.setTxd f.desc { wrn.txd f.desc with tx3 := 1 <<< wrn.ep.epNumber })
  | .writeTx2 =>
    (some { f with pc := .writeTx1 },
      wrn.setTxd f.desc { wrn.txd f.desc with
        tx2 := BitVec.ofNat 32 offset ||| BitVec.ofNat 32 f.skb.len <<< 16 })
  | .writeTx1 =>
    (some { f with pc := .account }, wrn.setTxd f.desc { wrn.txd f.desc with tx1 := f.tx1 })
  | .account =>
    (none, { wrn with ep := { wrn.ep with
      txPackets := wrn.ep.txPackets + 1, txBytes := wrn.ep.txBytes + f.skb.len } })

end Transmission

/-! ### The system -/

/-- Where the network stack is: no call in progress, one that has found no descriptor and still
draws an id, or one with a descriptor. -/
inductive XmitCall
  | idle
  | refused
  | sending (f : Transmission)

/-- What can happen: a call begins, or makes its next step; the hardware completes a descriptor; a
transmit-complete interrupt runs. -/
inductive XmitEvent
  | startXmit (frame : Frame)
  | next
  | txDone (i : Desc)
  | txInterrupt (r : Desc → PpsgReads)

/-- The device, the call in progress and the number of calls, and what an observer notes: the
buffer whose frame each descriptor was last given to the hardware with, the buffers given to the
hardware and those whose frames it has completed. -/
structure XmitSystem where
  wrn : WrnDev
  call : XmitCall
  calls : ℕ
  loaded : Desc → Option ℕ
  given : List ℕ
  completed : List ℕ

namespace XmitSystem

/-- A call begins: it is refused, or a descriptor is allocated for it. -/
def begin (s : XmitSystem) (frame : Frame) : XmitSystem :=
  let s' := { s with calls := s.calls + 1 }
  if frame.len > wrnMtu then
    { s' with wrn := { s.wrn with ep := { s.wrn.ep with txErrors := s.wrn.ep.txErrors + 1 } } }
  else
    match wrnAllocTxDesc s.wrn with
    | none => { s' with call := .refused }
    | some (desc, wrn) =>
      { s' with wrn := wrn, call := .sending ⟨desc, 0, ⟨frame, s.calls⟩, .drawId⟩ }

/-- The next step of a call with a descriptor. -/
def send (s : XmitSystem) (f : Transmission) : XmitSystem :=
  let (rest, wrn) := f.exec s.wrn
  let s' := { s with wrn := wrn, call := rest.elim .idle .sending }
  if f.pc = .writeTx1 then
    { s' with
      loaded := Function.update s.loaded f.desc (some f.skb.handle)
      given := f.skb.handle :: s.given }
  else s'

/-- Each event. The network stack does not begin a call before the previous one has returned. -/
def step (s : XmitSystem) : XmitEvent → XmitSystem
  | .startXmit frame =>
    match s.call with
    | .idle => s.begin frame
    | .refused => s
    | .sending _ => s
  | .next =>
    match s.call with
    | .idle => s
    | .refused => { s with wrn := (wrnDrawId s.wrn).2, call := .idle }
    | .sending f => s.send f
  | .txDone i =>
    { s with
      wrn := hwTxDone i s.wrn
      completed :=
        if (s.wrn.txd i).ready then (s.loaded i).toList ++ s.completed else s.completed }
  | .txInterrupt r => { s with wrn := wrnTxInterrupt r s.wrn }

/-- The system once the driver is probed. -/
def start (hw : PowerOn) : XmitSystem := ⟨wrnProbe hw, .idle, 0, fun _ => none, [], []⟩

/-! ### A call that is not interrupted -/

theorem run_next_idle {s : XmitSystem} (h : s.call = .idle) (n : ℕ) :
    run step s (List.replicate n .next) = s := by
  induction n with
  | zero => rfl
  | succ n ih =>
    have hnext : s.step .next = s := by simp only [step, h]
    rw [List.replicate_succ, run_cons, hnext, ih]

/-- **One call.** A call whose steps follow each other does what `wrn_start_xmit` does. -/
theorem run_startXmit {s : XmitSystem} (h : s.call = .idle) (frame : Frame) :
    (run step s (.startXmit frame :: List.replicate 8 .next)).wrn =
        (wrnStartXmit ⟨frame, s.calls⟩ s.wrn).2 ∧
      (run step s (.startXmit frame :: List.replicate 8 .next)).call = .idle := by
  have hbegin : s.step (.startXmit frame) = s.begin frame := by simp only [step, h]
  rw [run_cons, hbegin]
  by_cases hlen : frame.len > wrnMtu
  · have hidle : (s.begin frame).call = .idle := by simp only [begin, if_pos hlen, h]
    rw [run_next_idle hidle]
    refine ⟨?_, hidle⟩
    simp only [begin, wrnStartXmit, if_pos hlen]
  · cases halloc : wrnAllocTxDesc s.wrn with
    | none =>
      have hrefused : s.begin frame = { s with calls := s.calls + 1, call := .refused } := by
        simp only [begin, if_neg hlen, halloc]
      rw [hrefused, List.replicate_succ, run_cons, run_next_idle rfl]
      refine ⟨?_, rfl⟩
      simp only [step, wrnStartXmit, if_neg hlen, halloc]
    | some alloc =>
      obtain ⟨desc, wrn⟩ := alloc
      have hsending : s.begin frame = { s with
          calls := s.calls + 1
          wrn := wrn
          call := .sending ⟨desc, 0, ⟨frame, s.calls⟩, .drawId⟩ } := by
        simp only [begin, if_neg hlen, halloc]
      rw [hsending]
      simp only [List.replicate, run_cons, run_nil, step, send, Transmission.exec, Option.elim,
        reduceCtorEq, if_false, if_true]
      refine ⟨?_, trivial⟩
      simp only [wrnStartXmit, if_neg hlen, halloc, wrnTxDesc, WrnDev.setDesc, WrnDev.setTxd,
        Function.update_self, Function.update_idem, Transmission.tx1]

end XmitSystem

end SpecSw.Nic
