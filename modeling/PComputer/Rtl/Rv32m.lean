import PComputer.Foundation.ByteLanes

/-!
# `rv32m.v`

The sequential multiplier and divider.  A start pulse loads the operands; every
later cycle runs one step of shift-and-add or of restoring division, and
`finish` rises when the counter meets `finishCond`.
-/

namespace PComputer.Rtl

open PComputer.Foundation

structure Rv32m where
  mreg : BitVec 3
  aext : BitVec 64
  bext : BitVec 64
  result : BitVec 65
  cnt : BitVec 7
  divfix : Bool
  remfix : Bool
  finish : Bool
  r : Word
  deriving Inhabited

structure Rv32mIn where
  start : Bool
  a : Word
  b : Word
  m : BitVec 3

namespace Rv32m

def mulOrDiv (s : Rv32m) : Bool := !s.mreg.getLsbD 2

def finishCond (s : Rv32m) : Bool :=
  if s.mulOrDiv then
    if s.mreg.extractLsb' 0 2 = 0b01 then s.cnt == 64 else s.cnt == 32
  else s.cnt == 32

/-- Sign- or zero-extension into the upper half, by a replicated top bit. -/
def extend (top : Bool) (a : Word) : BitVec 64 := fill 32 top ++ a

def start (s : Rv32m) (i : Rv32mIn) : Rv32m :=
  let signBit := i.a.getLsbD 31
  let negative := i.b.getLsbD 31
  { s with
    aext :=
      if !i.m.getLsbD 2 then
        if i.m.extractLsb' 0 2 ≠ 0b11 then extend signBit i.a else extend false i.a
      else if !i.m.getLsbD 0 then
        if negative then extend (!signBit) (-i.a) else extend signBit i.a
      else extend false i.a
    bext :=
      if !i.m.getLsbD 2 then
        if i.m.extractLsb' 0 2 = 0b01 then extend negative i.b else extend false i.b
      else if !i.m.getLsbD 0 then
        if negative then -i.b ++ 0#32 else i.b ++ 0#32
      else i.b ++ 0#32
    mreg := i.m
    result := 0
    cnt := 0
    finish := false
    divfix := (signBit ^^ negative) && !i.m.getLsbD 0 && i.a != 0x80000000
    remfix := negative && !i.m.getLsbD 0 }

def mulStep (s : Rv32m) : Rv32m :=
  { s with
    cnt := s.cnt + 1
    aext := s.aext <<< 1
    bext := s.bext >>> 1
    result := if s.bext.getLsbD 0 then s.result + s.aext.setWidth 65 else s.result
    r :=
      if s.finishCond then
        if s.mreg.extractLsb' 0 2 = 0b00 then s.result.extractLsb' 0 32
        else s.result.extractLsb' 32 32
      else s.r
    finish := if s.finishCond then true else s.finish }

def divResult (s : Rv32m) : Word :=
  let low := s.aext.extractLsb' 0 32
  let high := s.aext.extractLsb' 32 32
  let divisor := s.bext.extractLsb' 32 32
  if s.divfix then
    if !s.mreg.getLsbD 1 then low + 1
    else if s.remfix then ~~~high + divisor + 1 else high - divisor
  else
    if !s.mreg.getLsbD 1 then low
    else if s.remfix then ~~~high + 1 else high

/-- One step of division; the quotient bit enters `aext` at the bottom. -/
def divStep (s : Rv32m) : Rv32m :=
  { s with
    cnt := s.cnt + 1
    aext :=
      if s.aext.extractLsb' 31 32 ≥ s.bext.extractLsb' 32 32 then
        if s.aext.getLsbD 63 then (s.aext <<< 1) + s.bext + 1
        else (s.aext <<< 1) - s.bext + 1
      else s.aext <<< 1
    r := if s.finishCond then s.divResult else s.r
    finish := if s.finishCond then true else s.finish }

def cycle (i : Rv32mIn) (s : Rv32m) : Rv32m :=
  if i.start then s.start i else if s.mulOrDiv then s.mulStep else s.divStep

end Rv32m

end PComputer.Rtl
