import BinaryLayout.Fault

/-!
# Log records

What operations report on their way: the formats compiled, the fields written and read, the
files opened, and the detail behind a fault.
-/
namespace BinaryLayout

/-- How important a record is. -/
inductive Level where
  | debug
  | error
  deriving DecidableEq, Repr

def Level.name : Level → String
  | .debug => "DEBUG"
  | .error => "ERROR"

/-- One event. -/
inductive LogRecord where
  | compiled (format : Format)
  | ignored (format : Format) (surplus : Nat)
  | packed (fields : Nat) (format : Format) (offset : Int)
  | unpacked (values : Nat) (format : Format) (offset : Int)
  | opening (path flags : Text)
  | detail (text : Text)
  | dumpFailed (path : Text) (fault : Fault)
  deriving Repr

namespace LogRecord

/-- The part of the program that reports the event. -/
def source : LogRecord → String
  | .compiled _ => "fmtpack.compiler"
  | .ignored _ _ | .packed _ _ _ | .unpacked _ _ _ => "fmtpack.core"
  | .opening _ _ => "fmtpack.streams"
  | .detail _ => "fmtpack.registry"
  | .dumpFailed _ _ => "__main__"

/-- Faults are errors, all else is for debugging. -/
def level : LogRecord → Level
  | .detail _ | .dumpFailed _ _ => .error
  | _ => .debug

/-- The wording of the event. -/
def message : LogRecord → Text
  | .compiled format =>
    .join ["compiled '", format.descriptor, "' -> ", format.order.name, " ", format.tokenList]
  | .ignored format surplus =>
    .join ["'", format.descriptor, "' ignores ", Numeral.ofNat surplus, " extra value(s)"]
  | .packed fields format offset =>
    .join ["packed ", Numeral.ofNat fields, " field(s) with '", format.descriptor,
      "' at offset ", Numeral.ofInt offset]
  | .unpacked values format offset =>
    .join ["unpacked ", Numeral.ofNat values, " value(s) with '", format.descriptor,
      "' at offset ", Numeral.ofInt offset]
  | .opening path flags => .join ["opening path '", path, "' with flags '", flags, "'"]
  | .detail text => text
  | .dumpFailed path fault =>
    .join ["failed to dump '", path, "': ", fault.message.getD []]

/-- The line that a terminal shows. -/
def line (r : LogRecord) : Text :=
  .join [r.level.name, ":", r.source, ":", r.message, "\n"]

end LogRecord

/-- The records that go with a fault. -/
def Fault.records (fault : Fault) : List LogRecord := fault.detail?.toList.map .detail

end BinaryLayout
