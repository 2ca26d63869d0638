import EcFlash.First.Main
import EcFlash.Reactive.History
import EcFlash.Reactive.Simulation
import EcFlash.First.Counters
import EcFlash.First.Invariant
import EcFlash.First.AckBound
import EcFlash.First.Announce
import EcFlash.First.Completion
import EcFlash.First.Coverage
import EcFlash.First.Handover
import EcFlash.Original.Main
import EcFlash.Original.Nodes
import EcFlash.Second.Agreement
import EcFlash.Gf2.Polynomial
import EcFlash.Gf2.ShiftRegister
import EcFlash.Checksum.Burst
import EcFlash.CString
import EcFlash.CommandLine
import EcFlash.First.Args
import EcFlash.First.Usage
import EcFlash.Second.Args
import EcFlash.First.Arithmetic
import EcFlash.First.Nodes
import EcFlash.Eflasher.Session
import EcFlash.Second.Delivery
import EcFlash.First.Guard
import EcFlash.First.Ending
import EcFlash.Reactive.Fairness
import EcFlash.Original.Args
import EcFlash.Original.Failures
import EcFlash.Original.Division
import EcFlash.Original.Ending
import EcFlash.Original.Delivery
import EcFlash.Checksum.Errors
import EcFlash.Second.Ending
import EcFlash.Original.Reception
