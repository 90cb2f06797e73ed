import PComputer.Foundation.ByteLanes

/-!
# `cache_cpu.v` and `cacheway.v`

The write-back cache in front of the burst memory, with its default parameters:
one way of 256 lines of 32 words.  `cacheway` keeps the tags in distributed RAM,
which reads combinationally, and the words in a block RAM (`simple_ram`), which
reads the old word at the clock edge.
-/

namespace PComputer.Rtl

open PComputer.Foundation

/-! ## One way -/

abbrev LineIndex := BitVec 8

abbrev BlockAddress := BitVec 25

abbrev BlockOffset := BitVec 5

structure CacheWay where
  tags : LineIndex → Word
  initDone : Bool
  count : LineIndex
  bram : BitVec 13 → Word
  spo : Word

structure CacheWayIn where
  rst : Bool
  en : Bool
  a : Word
  d : Word
  we : Bool
  tagWe : Bool
  tagIn : Word

namespace CacheWay

def offset (a : Word) : BlockOffset := a.extractLsb' 2 5

def index (a : Word) : LineIndex := a.extractLsb' 7 8

def bramA (a : Word) : BitVec 13 := index a ++ offset a

def tagOut (w : CacheWay) (a : Word) : Word := w.tags (index a)

def cycle (i : CacheWayIn) (w : CacheWay) : CacheWay where
  tags :=
    if i.rst then w.tags
    else if !w.initDone then Function.update w.tags w.count 0
    else if i.en && i.tagWe then Function.update w.tags (index i.a) i.tagIn
    else w.tags
  initDone := if i.rst then false else if !w.initDone then w.count == 0xff else true
  count := if i.rst then 0 else if !w.initDone then w.count + 1 else w.count
  bram := if i.en && i.we then Function.update w.bram (bramA i.a) i.d else w.bram
  spo := w.bram (bramA i.a)

end CacheWay

/-! ## The cache -/

inductive CacheState where
  | INIT | IDLE | HIT | LOAD | WRITEBACK
  deriving DecidableEq, Repr

structure CacheCpu where
  state : CacheState
  burstIssue : Bool
  burstIssueDelayed : Bool
  burstWbBaseA : BlockAddress
  burstWe : Bool
  hostWeorrd : Bool
  hostA : Word
  hostD : Word
  xferCnt : BitVec 16
  way : CacheWay

structure CacheIn where
  rst : Bool
  a : Word
  d : Word
  we : Bool
  rd : Bool
  lowmemSpo : Word
  lowmemReady : Bool

structure WayControl where
  en : Bool := false
  we : Bool := false
  tagWe : Bool := false
  validIn : Bool := false
  dirtyIn : Bool := false

/-- The upper 25 bits of an address: what a tag stores. -/
def blockOf (a : Word) : BlockAddress := a.extractLsb' 7 25

namespace CacheCpu

variable (i : CacheIn) (c : CacheCpu)

/-! ### Outputs -/

def spo : Word := c.way.spo

def ready (we rd : Bool) : Bool := !(we || rd) && c.state == .IDLE

def lowmemA : Word :=
  (if c.state = .WRITEBACK then c.burstWbBaseA else blockOf c.hostA) ++ 0#7

def lowmemD : Word := c.way.spo

def lowmemWe : Bool := c.state == .WRITEBACK && c.burstIssueDelayed && !c.burstIssue

def lowmemRd : Bool := c.state == .LOAD && c.burstIssue

/-! ### Way control -/

def bursting : Bool := c.state == .WRITEBACK || c.state == .LOAD

def burstLdA : Word := blockOf c.hostA ++ c.xferCnt.extractLsb' 0 5 ++ 0#2

def burstWbA : Word := c.burstWbBaseA ++ c.xferCnt.extractLsb' 0 5 ++ 0#2

def wayA : Word :=
  if c.bursting then (if c.state = .WRITEBACK then c.burstWbA else c.burstLdA)
  else if c.state = .IDLE then i.a else c.hostA

def wayD : Word :=
  if c.bursting then i.lowmemSpo else if c.state = .IDLE then i.d else c.hostD

def wayTagOut : Word := c.way.tagOut (c.wayA i)

def wayTagValid : Bool := (c.wayTagOut i).getLsbD 0

def wayTagDirty : Bool := (c.wayTagOut i).getLsbD 1

def wayTagAddr : BlockAddress := blockOf (c.wayTagOut i)

def wayHit : Bool := c.wayTagValid i && c.wayTagAddr i == blockOf i.a

def quickHit : Bool := (i.we || i.rd) && c.wayHit i

def wayControl : WayControl :=
  match c.state with
  | .INIT => {}
  | .IDLE =>
      if c.quickHit i then
        { en := true
          tagWe := true
          validIn := true
          we := i.we
          dirtyIn := if i.we then true else c.wayTagDirty i }
      else {}
  | .HIT =>
      { en := true
        tagWe := true
        validIn := true
        we := c.hostWeorrd
        dirtyIn := if c.hostWeorrd then true else c.wayTagDirty i }
  | .LOAD =>
      { en := true, we := c.burstWe, tagWe := c.burstIssue, validIn := true, dirtyIn := false }
  | .WRITEBACK => { en := true, tagWe := c.burstIssue, validIn := true, dirtyIn := false }

/-- The new tag takes its address from the port `a`; `way_iord_in` is always 0. -/
def wayTagIn : Word :=
  blockOf i.a ++ 0#4 ++ 0#1 ++ BitVec.ofBool (c.wayControl i).dirtyIn ++
    BitVec.ofBool (c.wayControl i).validIn

def wayIn : CacheWayIn where
  rst := i.rst
  en := (c.wayControl i).en
  a := c.wayA i
  d := c.wayD i
  we := (c.wayControl i).we
  tagWe := (c.wayControl i).tagWe
  tagIn := c.wayTagIn i

/-! ### State machine -/

/-- The registers of the state machine; `way` and `burst_issue_delayed` are left to `cycle`. -/
def fsm : CacheCpu :=
  match c.state with
  | .INIT => if c.way.initDone then { c with state := .IDLE } else c
  | .IDLE =>
      let c' := { c with xferCnt := 0, burstIssue := true }
      if i.we || i.rd then
        let c' := { c' with hostA := i.a, hostD := i.d, hostWeorrd := i.we }
        if c.wayHit i then { c' with state := .IDLE }
        else if !c.wayTagValid i then { c' with state := .LOAD }
        else if !c.wayTagDirty i then { c' with state := .LOAD }
        else { c' with state := .WRITEBACK, burstWbBaseA := c.wayTagAddr i }
      else c'
  | .HIT => { c with state := .IDLE }
  | .WRITEBACK =>
      if c.burstIssue then { c with burstIssue := false, xferCnt := 0 }
      else
        let c' := { c with xferCnt := if i.lowmemReady then c.xferCnt + 1 else c.xferCnt }
        if c.xferCnt = 32 then { c' with state := .LOAD, burstIssue := true } else c'
  | .LOAD =>
      if c.burstIssue then { c with burstIssue := false, xferCnt := -1 }
      else if i.lowmemReady then
        let c' := { c with xferCnt := c.xferCnt + 1 }
        if c.xferCnt = 31 then { c' with burstWe := false, state := .HIT }
        else { c' with burstWe := true }
      else { c with burstWe := false }

def fsmReset : CacheCpu :=
  { c with hostA := 0, state := .INIT, xferCnt := 0, burstIssue := false, burstWe := false }

def cycle : CacheCpu :=
  { (if i.rst then c.fsmReset else c.fsm i) with
    burstIssueDelayed := c.burstIssue
    way := c.way.cycle (c.wayIn i) }

end CacheCpu

end PComputer.Rtl
