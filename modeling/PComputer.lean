import PComputer.Kernel.Safety
import PComputer.Kernel.Return
import PComputer.Fs.Wakeup
import PComputer.Rtl.CacheRefinement
import PComputer.Kernel.ExternalInterrupts
import PComputer.Rtl.Refinement
import PComputer.Rtl.Traps
import PComputer.Fs.FullQueue
import PComputer.Fs.Requests
import PComputer.Fs.Published
import PComputer.Kernel.Elf
import PComputer.Rtl.BootCoherence
import PComputer.Rtl.Resume
import PComputer.Kernel.ContextSwitch
import PComputer.Kernel.SeekAndRead
import PComputer.Rtl.MulDiv
import PComputer.Rtl.CsrInstructions
import PComputer.Kernel.Receives
import PComputer.Fs.RootDirectory
import PComputer.Fs.BoundedFifo
import PComputer.Kernel.RoundRobin
import PComputer.Fs.FileChain
import PComputer.Fs.ReadWithin
import PComputer.Fs.Continuity
import PComputer.Fs.Termination
import PComputer.Kernel.SdcardToMemory
import PComputer.Rtl.SerialDecoding
import PComputer.Rtl.Loopback
import PComputer.Rtl.SectorTransfer
import PComputer.Rtl.SectorAgreement
import PComputer.Fs.Readv
import PComputer.Rtl.Ch375b
import PComputer.Kernel.Ch375
import PComputer.Kernel.UsbSector
import PComputer.Kernel.Loaders
import PComputer.Kernel.LoaderBounds
import PComputer.Kernel.NewProcess
import PComputer.Kernel.Relocated
import PComputer.Kernel.PatchOrder
import PComputer.Kernel.Ticks
import PComputer.Kernel.W5500Registers
import PComputer.Rtl.ComputerProgram
import PComputer.Rtl.Mkrvidor4000Top
import PComputer.Rtl.Ps2
