import ChipEight.Command.Simulation
import ChipEight.Instruction.Lemmas
import ChipEight.Main
import ChipEight.Proofs.Reachable
import ChipEight.Rig
import ChipEight.Proofs.Soundness
import ChipEight.Proofs.SameButClock
import ChipEight.Proofs.Batching
import ChipEight.Proofs.KeyWait
import ChipEight.Proofs.Canonical
import ChipEight.Proofs.Lockstep
import ChipEight.Proofs.Resemblance
import ChipEight.Proofs.Continuation
import ChipEight.Proofs.History
import ChipEight.Proofs.DisplayFrame
import ChipEight.Proofs.CleanSlate
import ChipEight.Proofs.IndexModulo
import ChipEight.Proofs.Subroutine
import ChipEight.Proofs.Halting
import ChipEight.Proofs.SameButPacking
import ChipEight.Proofs.Publication
import ChipEight.Proofs.Glances
import ChipEight.Proofs.Dialects
import ChipEight.Proofs.RandomBytes
import ChipEight.Proofs.Anomalies
import ChipEight.Proofs.Footprint
import ChipEight.Proofs.Sprites
import ChipEight.Proofs.Parity
import ChipEight.Proofs.Drawing
import ChipEight.Proofs.Arithmetic
import ChipEight.Proofs.Transfers
import ChipEight.Proofs.Diagnosis
import ChipEight.Proofs.HeldKeys
import ChipEight.Proofs.Alignment
import ChipEight.Proofs.StepCount
import ChipEight.Proofs.StepByStep
import ChipEight.Proofs.LatchByte
import ChipEight.Proofs.CommandLoop
import ChipEight.Proofs.FrameStream
