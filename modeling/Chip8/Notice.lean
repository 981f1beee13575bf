import Chip8.Fault
import Chip8.Instruction.Assembly

/-
  This file defines the notices that the machine and its host
  give while they run, their levels and their texts.

  Key definitions include:
    * `Level`, `Level.admits`
    * `Notice`
    * `Notice.level`, `Notice.message`
-/

------------------------------------------------------------
-- Levels
------------------------------------------------------------

namespace Chip8

/- How much a notice matters, most important first. -/
inductive Level where
  | error
  | warn
  | info
  | debug
  | trace
deriving DecidableEq

namespace Level

/- The place of a level in the order of detail. -/
def detail : Level → Nat
| .error => 1
| .warn => 2
| .info => 3
| .debug => 4
| .trace => 5

/- A limit lets through what is no more detailed than itself. -/
def admits
    (limit : Level)
    (level : Level) : Bool :=
  level.detail ≤ limit.detail

/- The label in front of a notice. -/
def label : Level → String
| .error => "ERROR"
| .warn => "WARN"
| .info => "INFO"
| .debug => "DEBUG"
| .trace => "TRACE"

end Level

------------------------------------------------------------
-- Notices
------------------------------------------------------------

/- What a notice reports. -/
inductive Notice where
  /- The machine was reset. -/
  | machineReset
  /- A program of this size was installed. -/
  | programLoaded (size : Nat)
  /- The instruction at this address is carried out. -/
  | dispatched (pc : UInt16) (instruction : Instruction)
  /- A held key ended the wait of a register. -/
  | keyReleasedWait (key : Nibble) (register : Register)
  /- A return was passed over. -/
  | returnSkipped (fault : Fault)
  /- A call was passed over. -/
  | callSkipped (fault : Fault) (target : Target)
  /- A word without a meaning was passed over. -/
  | unsupported (word : Word) (pc : UInt16)
  /- A key event named no key of the pad. -/
  | noSuchKey (index : Nat)
  /- A program begins to run. -/
  | programStarted (name : String) (size : Nat)
  /- The tone cannot be played. -/
  | soundDisabled (cause : String)
  /- The sound device reported a failure. -/
  | soundFailed (cause : String)
deriving DecidableEq

namespace Notice

/- The level of a notice. -/
def level : Notice → Level
| .machineReset => .debug
| .programLoaded _ => .debug
| .dispatched .. => .trace
| .keyReleasedWait .. => .trace
| .returnSkipped _ => .warn
| .callSkipped .. => .warn
| .unsupported .. => .warn
| .noSuchKey _ => .warn
| .programStarted .. => .info
| .soundDisabled _ => .warn
| .soundFailed _ => .error

/- The text of a notice. -/
def message : Notice → String
| .machineReset => "machine reset"
| .programLoaded size =>
    "loaded " ++ Numeral.decimalText size ++
      " byte program at 0x200"
| .dispatched pc instruction =>
    Numeral.addressText pc ++ ": " ++ instruction.listing
| .keyReleasedWait key register =>
    "key " ++ Numeral.upperText key ++
      " released FX0A into V" ++ Numeral.upperText register
| .returnSkipped fault =>
    fault.message ++ ", skipping RET"
| .callSkipped fault target =>
    fault.message ++ ", skipping CALL " ++
      Numeral.addressText target.toAddress
| .unsupported word pc =>
    "unsupported opcode " ++ Numeral.wordText word ++
      " at " ++ Numeral.addressText pc
| .noSuchKey index =>
    "ignoring event for key index " ++
      Numeral.decimalText index ++ ", the pad has 16 keys"
| .programStarted name size =>
    "running " ++ name ++ " (" ++
      Numeral.decimalText size ++ " bytes)"
| .soundDisabled cause => "audio disabled: " ++ cause
| .soundFailed cause => "audio stream error: " ++ cause

end Notice

end Chip8
