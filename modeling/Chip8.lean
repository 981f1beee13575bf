import Chip8.Binary.Decimal
import Chip8.Binary.Format
import Chip8.CallStack
import Chip8.Cells
import Chip8.Fault
import Chip8.Font
import Chip8.Instruction
import Chip8.Instruction.Assembly
import Chip8.Instruction.Outline
import Chip8.Keyboard
import Chip8.Keypad
import Chip8.Machine.Arithmetic
import Chip8.Machine.Execute
import Chip8.Machine.Host
import Chip8.Machine.State
import Chip8.Main
import Chip8.Memory
import Chip8.Nibble
import Chip8.Notice
import Chip8.Numeral
import Chip8.Options
import Chip8.Proofs.AddressCongruence
import Chip8.Proofs.Checked.Access
import Chip8.Proofs.Checked.Decoding
import Chip8.Proofs.Checked.Drawing
import Chip8.Proofs.Checked.Execution
import Chip8.Proofs.Checked.Parts
import Chip8.Proofs.ClockRun
import Chip8.Proofs.Dispatch
import Chip8.Proofs.DrawInstruction
import Chip8.Proofs.Drawing
import Chip8.Proofs.DrawingOrder
import Chip8.Proofs.FaultContainment
import Chip8.Proofs.FlagArithmetic
import Chip8.Proofs.Footprint
import Chip8.Proofs.FrameSamples
import Chip8.Proofs.FreshStart
import Chip8.Proofs.HostAccess
import Chip8.Proofs.HostRun
import Chip8.Proofs.InputReach
import Chip8.Proofs.LitCount
import Chip8.Proofs.Loading
import Chip8.Proofs.Polling
import Chip8.Proofs.RandomStream
import Chip8.Proofs.SoundGate
import Chip8.Proofs.StoredValues
import Chip8.Proofs.StraightLine
import Chip8.Proofs.Subroutine
import Chip8.Proofs.TrapFreedom
import Chip8.Proofs.WallClock
import Chip8.Proofs.WordForm
import Chip8.Random.Cipher
import Chip8.Random.Source
import Chip8.Registers
import Chip8.Screen
import Chip8.Screen.Picture
import Chip8.Screen.Raster
import Chip8.Sound.Frames
import Chip8.Sound.Sample
import Chip8.Sound.Stream
import Chip8.Sound.Tone
import Chip8.Timer
import Chip8.Word
import Chip8.Proofs.ProgramCounter
import Chip8.Proofs.ListingText
import Chip8.Proofs.Listing
import Chip8.Proofs.Doubles
import Chip8.Proofs.DoubleOrder
import Chip8.Proofs.TimerAccount
import Chip8.Proofs.PendingTime
import Chip8.Proofs.DoubleQuotients
import Chip8.Proofs.TimerDecay
import Chip8.Proofs.FrameBoundaries
import Chip8.Proofs.FrameList
import Chip8.Proofs.KeyHistory
import Chip8.Proofs.ScreenViews
