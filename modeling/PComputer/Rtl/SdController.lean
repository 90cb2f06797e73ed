import Mathlib.Data.BitVec

/-!
# `sd_controller.v`

The SPI side of the SD card unit.  It steps at every second clock; one bit goes each way
while `sclk` is high and low once.
-/

namespace PComputer.Rtl

inductive SdState where
  | RST | INIT | CMD0 | CMD8 | CMD55 | CMD41 | POLL_CMD
  | IDLE
  | READ_BLOCK | READ_BLOCK_WAIT | READ_BLOCK_DATA | READ_BLOCK_CRC
  | SEND_CMD | RECEIVE_BYTE_WAIT | RECEIVE_BYTE
  | WRITE_BLOCK_CMD | WRITE_BLOCK_INIT | WRITE_BLOCK_DATA | WRITE_BLOCK_BYTE | WRITE_BLOCK_WAIT
  deriving DecidableEq, Repr

structure SdController where
  state : SdState
  returnState : SdState
  sclkSig : Bool
  cmdOut : BitVec 56
  cmdMode : Bool
  dataSig : BitVec 8
  responseType : BitVec 3
  byteCounter : BitVec 10
  bitCounter : BitVec 10
  bootCounter : BitVec 27
  resetCounter : BitVec 8
  cs : Bool
  dout : BitVec 8
  byteAvailable : Bool
  readyForNextByte : Bool
  recvData : BitVec 8

structure SdControllerIn where
  clkPulseSlow : Bool
  reset : Bool
  miso : Bool
  address : BitVec 32
  rd : Bool
  wr : Bool
  din : BitVec 8

namespace SdController

def WRITE_DATA_SIZE : BitVec 10 := 515

variable (i : SdControllerIn) (c : SdController)

def sclk : Bool := c.sclkSig

def mosi : Bool := if c.cmdMode then c.cmdOut.getLsbD 55 else c.dataSig.getLsbD 7

def ready : Bool := c.state == .IDLE

def toggle : SdController := { c with sclkSig := !c.sclkSig }

def sendInit (cmd : BitVec 56) (response : BitVec 3) (return' : SdState) : SdController :=
  { c with
    cmdOut := cmd
    bitCounter := 55
    responseType := response
    returnState := return'
    state := .SEND_CMD }

def slow : SdController :=
  match c.state with
  | .RST =>
      if c.bootCounter = 0 then
        { c with
          sclkSig := false
          cmdOut := BitVec.allOnes 56
          byteCounter := 0
          byteAvailable := false
          readyForNextByte := false
          cmdMode := true
          bitCounter := 160
          cs := true
          state := .INIT }
      else
        { c with
          bootCounter := c.bootCounter - 1
          sclkSig := if c.bootCounter.getLsbD 6 then !c.sclkSig else c.sclkSig }
  | .INIT =>
      if c.bitCounter = 0 then { c with cs := false, state := .CMD0 }
      else { c with bitCounter := c.bitCounter - 1, sclkSig := !c.sclkSig }
  | .CMD0 => c.sendInit 0xFF400000000095 1 .CMD8
  | .CMD8 => c.sendInit 0xFF48000001AA87 7 .CMD55
  | .CMD55 => c.sendInit 0xFF770000000001 1 .CMD41
  | .CMD41 => c.sendInit 0xFF694000000001 1 .POLL_CMD
  | .POLL_CMD => { c with state := if c.recvData.getLsbD 0 then .CMD55 else .IDLE }
  | .IDLE =>
      { c with state := if i.rd then .READ_BLOCK else if i.wr then .WRITE_BLOCK_CMD else .IDLE }
  | .READ_BLOCK =>
      { c with
        cmdOut := 0xFF51#16 ++ i.address ++ 0xFF#8
        bitCounter := 55
        responseType := 1
        returnState := .READ_BLOCK_WAIT
        state := .SEND_CMD }
  | .READ_BLOCK_WAIT =>
      toggle
        (if c.sclkSig && !i.miso then
          { c with
            byteCounter := 511
            bitCounter := 7
            returnState := .READ_BLOCK_DATA
            state := .RECEIVE_BYTE }
        else c)
  | .READ_BLOCK_DATA =>
      { c with
        dout := c.recvData
        byteAvailable := true
        byteCounter := if c.byteCounter = 0 then c.byteCounter else c.byteCounter - 1
        returnState := if c.byteCounter = 0 then .READ_BLOCK_CRC else .READ_BLOCK_DATA
        bitCounter := 7
        state := .RECEIVE_BYTE }
  | .READ_BLOCK_CRC => { c with bitCounter := 7, returnState := .IDLE, state := .RECEIVE_BYTE }
  | .SEND_CMD =>
      toggle
        (if c.sclkSig then
          if c.bitCounter = 0 then { c with state := .RECEIVE_BYTE_WAIT }
          else { c with bitCounter := c.bitCounter - 1, cmdOut := c.cmdOut.shiftConcat true }
        else c)
  | .RECEIVE_BYTE_WAIT =>
      toggle
        (if c.sclkSig && !i.miso then
          { c with
            recvData := 0
            bitCounter := if c.responseType = 7 then 38 else 6
            state := .RECEIVE_BYTE }
        else c)
  | .RECEIVE_BYTE =>
      toggle
        (if c.sclkSig then
          { c with
            byteAvailable := false
            recvData := c.recvData.shiftConcat i.miso
            bitCounter := if c.bitCounter = 0 then c.bitCounter else c.bitCounter - 1
            state := if c.bitCounter = 0 then c.returnState else .RECEIVE_BYTE }
        else { c with byteAvailable := false })
  | .WRITE_BLOCK_CMD =>
      { c with
        cmdOut := 0xFF58#16 ++ i.address ++ 0xFF#8
        bitCounter := 55
        returnState := .WRITE_BLOCK_INIT
        responseType := 1
        state := .SEND_CMD
        readyForNextByte := true }
  | .WRITE_BLOCK_INIT =>
      { c with
        cmdMode := false
        byteCounter := WRITE_DATA_SIZE
        state := .WRITE_BLOCK_DATA
        readyForNextByte := false }
  | .WRITE_BLOCK_DATA =>
      if c.byteCounter = 0 then
        { c with state := .RECEIVE_BYTE_WAIT, returnState := .WRITE_BLOCK_WAIT }
      else
        { c with
          dataSig :=
            if c.byteCounter = 2 ∨ c.byteCounter = 1 then 0xFF
            else if c.byteCounter = WRITE_DATA_SIZE then 0xFE
            else i.din
          readyForNextByte :=
            if c.byteCounter = 2 ∨ c.byteCounter = 1 ∨ c.byteCounter = WRITE_DATA_SIZE then
              c.readyForNextByte
            else true
          bitCounter := 7
          state := .WRITE_BLOCK_BYTE
          byteCounter := c.byteCounter - 1 }
  | .WRITE_BLOCK_BYTE =>
      toggle
        (if c.sclkSig then
          if c.bitCounter = 0 then { c with state := .WRITE_BLOCK_DATA, readyForNextByte := false }
          else { c with dataSig := c.dataSig.shiftConcat true, bitCounter := c.bitCounter - 1 }
        else c)
  | .WRITE_BLOCK_WAIT =>
      toggle (if c.sclkSig && i.miso then { c with state := .IDLE, cmdMode := true } else c)

def cycle : SdController :=
  if i.reset then
    { c with
      state := .RST
      sclkSig := if i.clkPulseSlow && c.resetCounter.getLsbD 6 then !c.sclkSig else false
      bootCounter := 80000
      cmdMode := true
      cs := true
      cmdOut := BitVec.allOnes 56
      dataSig := 0xFF
      resetCounter := if i.clkPulseSlow then c.resetCounter + 1 else c.resetCounter }
  else if i.clkPulseSlow then c.slow i
  else c

end SdController

end PComputer.Rtl
