import PComputer.Foundation.Clocked
import PComputer.Foundation.SerialLine
import PComputer.Foundation.ByteLanes

/-!
# `uart.v` and `baud_rate_gen.v`

The transmitter and the receiver of a UART share the accumulators of the baud rate and
the port of the CPU, and nothing else.
-/

namespace PComputer.Rtl

open PComputer.Foundation

/-! ## `baud_rate_gen` -/

structure BaudRateGen where
  rxAcc : BitVec 20
  txAcc : BitVec 20

namespace BaudRateGen

def RX_ACC_MAX (clockFreq baudRate sampleMultiplier : Nat) : Nat :=
  clockFreq / (baudRate * sampleMultiplier) + 1

def TX_ACC_MAX (clockFreq baudRate : Nat) : Nat := clockFreq / baudRate

variable (g : BaudRateGen)

def rxclkEn : Bool := g.rxAcc == 0

def txclkEn : Bool := g.txAcc == 0

def count (accMax : Nat) (rst : Bool) (acc : BitVec 20) : BitVec 20 :=
  if rst then 1 else if acc = BitVec.ofNat 20 accMax then 0 else acc + 1

def cycle (clockFreq baudRate sampleMultiplier : Nat) (rst : Bool) : BaudRateGen where
  rxAcc := count (RX_ACC_MAX clockFreq baudRate sampleMultiplier) rst g.rxAcc
  txAcc := count (TX_ACC_MAX clockFreq baudRate) rst g.txAcc

end BaudRateGen

/-! ## `uart` -/

structure UartIn where
  rst : Bool
  rx : Bool
  a : BitVec 3
  d : Word
  we : Bool

def UartIn.data (i : UartIn) : BitVec 8 := i.d.extractLsb' 24 8

def UartIn.writesData (i : UartIn) : Bool := i.we && i.a == 0

inductive TxState where
  | IDLE | START | DATA | STOP
  deriving DecidableEq, Repr

structure UartTx where
  tx : Bool
  stateTx : TxState
  dataTx : BitVec 8
  bitposTx : BitVec 3

inductive RxState where
  | START | START_REMEDY | DATA | STOP
  deriving DecidableEq, Repr

structure UartRx where
  rxR : Bool
  stateRx : RxState
  sample : BitVec 5
  bitposRx : BitVec 4
  scratch : BitVec 8
  dataRx : BitVec 8
  /-- The flag that the CPU polls and clears. -/
  rxNew : Bool
  /-- The pulse that is the interrupt. -/
  rxnew : Bool

structure Uart where
  gen : BaudRateGen
  sender : UartTx
  receiver : UartRx

namespace UartTx

variable (i : UartIn) (txclkEn : Bool) (u : UartTx)

/-- A write to the data register counts only while the transmitter is idle. -/
def accepts : Bool := !i.rst && u.stateTx == .IDLE && i.writesData

def cycle : UartTx :=
  if i.rst then { tx := true, dataTx := 0, stateTx := .IDLE, bitposTx := 0 }
  else
    match u.stateTx with
    | .IDLE =>
        if i.writesData then { u with dataTx := i.data, stateTx := .START, bitposTx := 0 }
        else u
    | .START => if txclkEn then { u with tx := false, stateTx := .DATA } else u
    | .DATA =>
        if txclkEn then
          { u with
            stateTx := if u.bitposTx = 7 then .STOP else .DATA
            bitposTx := if u.bitposTx = 7 then u.bitposTx else u.bitposTx + 1
            tx := u.dataTx.getLsbD u.bitposTx.toNat }
        else u
    | .STOP => if txclkEn then { u with tx := true, stateTx := .IDLE } else u

end UartTx

namespace UartRx

def SAMPLE_COUNT : BitVec 5 := 17
def SAMPLE_SAMPLE : BitVec 5 := 6
def SAMPLE_REMEDY : BitVec 5 := 4

variable (i : UartIn) (rxclkEn : Bool) (u : UartRx)

/-- The stop bit may end early, as soon as the next start bit is seen. -/
def stopDone : Bool := u.sample == SAMPLE_COUNT || SAMPLE_REMEDY ≤ u.sample && !u.rxR

def wireRxStateStop : Bool := rxclkEn && u.stateRx == .STOP && u.stopDone

def setBit (v : BitVec 8) (k : Nat) (b : Bool) : BitVec 8 :=
  if b then v ||| BitVec.twoPow 8 k else v &&& ~~~BitVec.twoPow 8 k

/-- Both start states enter the data bits in the same way. -/
def enterData : UartRx :=
  { u with stateRx := .DATA, bitposRx := 0, sample := 0, scratch := 0 }

def tick : UartRx :=
  match u.stateRx with
  | .START =>
      if u.sample = SAMPLE_COUNT then u.enterData
      else if !u.rxR || u.sample != 0 then { u with sample := u.sample + 1 }
      else u
  | .START_REMEDY =>
      if u.sample = SAMPLE_COUNT then u.enterData else { u with sample := u.sample + 1 }
  | .DATA =>
      { u with
        sample := if u.sample = SAMPLE_COUNT then 0 else u.sample + 1
        scratch :=
          if u.sample = SAMPLE_SAMPLE then
            setBit u.scratch (u.bitposRx.extractLsb' 0 3).toNat u.rxR
          else u.scratch
        bitposRx := if u.sample = SAMPLE_SAMPLE then u.bitposRx + 1 else u.bitposRx
        stateRx := if u.bitposRx = 8 ∧ u.sample = SAMPLE_COUNT then .STOP else .DATA }
  | .STOP =>
      if u.stopDone then
        { u with
          stateRx := if u.rxR then .START else .START_REMEDY
          dataRx := u.scratch
          sample := 0 }
      else { u with sample := u.sample + 1 }

def cycle : UartRx :=
  { (if i.rst then { u with dataRx := 0, stateRx := .START, sample := 0 }
      else if rxclkEn then u.tick else u : UartRx) with
    rxR := i.rx
    rxNew :=
      if i.rst then false
      else if u.wireRxStateStop rxclkEn then true
      else if i.we && i.a == 1 then false
      else u.rxNew
    rxnew := u.wireRxStateStop rxclkEn }

end UartRx

namespace Uart

variable (u : Uart)

def spo (a : BitVec 3) : Word :=
  if a = 0 then u.receiver.dataRx ++ 0#24
  else if a = 1 then 0#7 ++ BitVec.ofBool u.receiver.rxNew ++ 0#24
  else if a = 2 then 0#7 ++ BitVec.ofBool (u.sender.stateTx == .IDLE) ++ 0#24
  else 0

def irq : Bool := u.receiver.rxnew

def rxdata : BitVec 8 := u.receiver.dataRx

def cycle (clockFreq baudRate : Nat) (i : UartIn) : Uart where
  gen := u.gen.cycle clockFreq baudRate 32 i.rst
  sender := u.sender.cycle i u.gen.txclkEn
  receiver := u.receiver.cycle i u.gen.rxclkEn

end Uart

end PComputer.Rtl
