import BinaryLayout.Text.Utf8
import BinaryLayout.Value.Literal

/-!
# Faults

Everything that an operation can be refused with, told apart by its cause. The wording of each
cause is in `Fault.message`. A message that would have to show an integer beyond the digit limit
cannot be written, and then that is what is reported: `Fault.limited` makes the exchange.
-/
namespace BinaryLayout

/-- Why a value does not fit a field of numbers, or bytes do not make up one. -/
inductive Misfit where
  | notInteger
  | notReal
  | outOfRange
  | outside (label : Text) (least greatest : Int)
  | tooLarge
  | beyondSingle
  | wrongLength (size : Nat)
  deriving DecidableEq, Repr

def Misfit.message : Misfit → Text
  | .notInteger => "required argument is not an integer"
  | .notReal => "required argument is not a float"
  | .outOfRange => "argument out of range"
  | .outside label least greatest =>
    .join [label, " format requires ", Numeral.ofInt least, " <= number <= ",
      Numeral.ofInt greatest]
  | .tooLarge => "int too large to convert"
  | .beyondSingle => "float too large to pack with f format"
  | .wrongLength size => .join ["unpack requires a buffer of ", Numeral.ofNat size, " bytes"]

/-- What the directory of files refuses. -/
inductive FileFault where
  | notFound (path : Text)
  | alreadyExists (path : Text)
  | notDirectory (path : Text)
  | isDirectory (path : Text)
  | nameTooLong (path : Text)
  /-- A path or a mode has no encoded form. -/
  | unencodable (run : Utf8.SurrogateRun)
  | nullByte
  | nullInMode
  | invalidMode (mode : Text)
  | mixedMode
  | severalModes
  | noMode
  deriving DecidableEq, Repr

def FileFault.message : FileFault → Text
  | .notFound path => .join ["[Errno 2] No such file or directory: ", Quoted.ofText path]
  | .alreadyExists path => .join ["[Errno 17] File exists: ", Quoted.ofText path]
  | .notDirectory path => .join ["[Errno 20] Not a directory: ", Quoted.ofText path]
  | .isDirectory path => .join ["[Errno 21] Is a directory: ", Quoted.ofText path]
  | .nameTooLong path => .join ["[Errno 36] File name too long: ", Quoted.ofText path]
  | .unencodable run => run.message
  | .nullByte => "embedded null byte"
  | .nullInMode => "embedded null character"
  | .invalidMode mode => .join ["invalid mode: '", mode, "'"]
  | .mixedMode => "can't have text and binary mode at once"
  | .severalModes => "must have exactly one of create/read/write/append mode"
  | .noMode =>
    "Must have exactly one of create/read/write/append mode and at most one plus"

/-- What can go wrong. -/
inductive Fault where
  /-- A descriptor is a text. -/
  | descriptorKind (kind : String)
  /-- A count of zero would make a field without bytes. -/
  | zeroCount (descriptor : Text) (position : Nat)
  /-- What follows the last field is not another one. -/
  | unexpectedCharacter (descriptor : Text) (position : Nat)
  /-- A count has more digits than a numeral may have. -/
  | countTooLong (digits : Nat)
  | unknownSpecifier (name : Text)
  | unknownByteOrder (mark : Value)
  | zeroAlignment
  | bufferTooSmall (offset size : Int) (length : Nat)
  | negativeSize
  /-- No buffer has a size that needs more than a machine word. -/
  | sizeTooLarge
  | stringTooLarge
  | bufferTooLarge
  /-- The size of new storage is beyond a machine word, where it counts as negative. -/
  | negativeString
  | negativeStorage
  | outOfMemory
  | insufficientValues (needed given : Nat)
  | notByte (value : Value)
  | notString (value : Value)
  | unpackable (value : Value) (specifier : Specifier) (misfit : Misfit)
  | noScalarEncoding (specifier : Specifier)
  | surrogates (run : Utf8.SurrogateRun)
  | undecodable (raw : Bytes) (specifier : Specifier) (misfit : Misfit)
  | noScalarDecoding (specifier : Specifier)
  | invalidUtf8 (raw : Bytes) (fault : Utf8.DecodeFault)
  /-- There is no first byte to be a character. -/
  | emptyByte (holding : Holding)
  | notBuffer (kind : String)
  | notBytesLike (kind : String)
  | notConvertible (kind : String)
  | notSequence (kind : String)
  | emptySequence (name : String)
  | notIndex (kind : String)
  | notByteValue
  | notCharacterCode
  | characterCodeTooLarge
  /-- A text has bytes only in some encoding. -/
  | noEncoding
  | readOnly (kind : String)
  /-- A view cannot take bytes that go past its end. -/
  | viewLength
  | emptyRecord (descriptor : Text)
  | truncatedStream (requested available : Int)
  | notStream (kind : String)
  /-- Writing to raw bytes would only reach a copy of them. -/
  | rawOutput
  | missingOperation (kind operation : String)
  | unsupportedOperation (operation : String)
  | closedFile (message : String)
  | negativeSeek (position : Int)
  | negativePosition (position : Int)
  | negativeRead
  | invalidSeek
  | offsetTooLarge
  | positionTooLarge
  | positionTooLong
  /-- The text at a position is not there any more. -/
  | lostPosition
  | unknownPosition
  /-- What was read is text, where bytes are needed. -/
  | textRead
  /-- Only text can be written, and bytes are not. -/
  | bytesWritten
  | undecodableText (fault : Utf8.DecodeFault)
  | file (fault : FileFault)
  | noProgramName
  /-- A message would show an integer beyond the digit limit; the misfit is what it was about. -/
  | unshowable (misfit? : Option Misfit)
  deriving Repr

namespace Fault

/-- A problem of a descriptor, with the text and a mark under the place. -/
def pointAt (problem : String) (descriptor : Text) (position : Nat) : Text :=
  .join [problem, "\n\tIn format '", descriptor, "', position ", Numeral.ofNat position, "\n\t",
    List.replicate (11 + position) (CodePoint.ofChar '-'), "^"]

/-- What an integer beyond the digit limit is refused with. -/
def limitMessage (detail : Text) : Text :=
  .join ["Exceeds the limit (", Numeral.ofNat Numeral.digitLimit,
    " digits) for integer string conversion", detail,
    "; use sys.set_int_max_str_digits() to increase the limit"]

/-- The wording of a fault, unless it would hold an address. -/
def message : Fault → Option Text
  | .descriptorKind kind => some (.join ["descriptor must be a string, not ", kind])
  | .zeroCount descriptor position =>
    some (pointAt "the count must be positive" descriptor position)
  | .unexpectedCharacter descriptor position =>
    some (pointAt "unexpected character" descriptor position)
  | .countTooLong digits =>
    some (limitMessage (.join [": value has ", Numeral.ofNat digits, " digits"]))
  | .unknownSpecifier name => some (.join ["unknown specifier ", Quoted.ofText name])
  | .unknownByteOrder mark => do
    return .join [← mark.literal?, " is not a valid ByteOrder"]
  | .zeroAlignment => some "integer modulo by zero"
  | .bufferTooSmall offset size length =>
    some (.join ["field of ", Numeral.ofInt size, " byte(s) at offset ", Numeral.ofInt offset,
      " exceeds buffer of ", Numeral.ofNat length, " byte(s)"])
  | .negativeSize => some "negative count"
  | .sizeTooLarge => some "cannot fit 'int' into an index-sized integer"
  | .stringTooLarge => some "byte string is too large"
  | .bufferTooLarge => some "new buffer size too large"
  | .negativeString => some "Negative size passed to PyBytes_FromStringAndSize"
  | .negativeStorage =>
    some "../Objects/bytesobject.c:3124: bad argument to internal function"
  | .outOfMemory => some []
  | .insufficientValues needed given =>
    some (.join ["the format requires at least ", Numeral.ofNat needed, " value(s), ",
      Numeral.ofNat given, " given"])
  | .notByte value => do return .join [← value.literal?, " is not a single byte character"]
  | .notString value => do return .join [← value.literal?, " is not a string"]
  | .unpackable value specifier misfit => do
    return .join ["can't pack ", ← value.literal?, " as '", specifier.name, "': ",
      misfit.message]
  | .noScalarEncoding specifier =>
    some (.join ["specifier '", specifier.name, "' has no scalar encoding"])
  | .surrogates run => some run.message
  | .undecodable raw specifier misfit =>
    some (.join ["can't unpack ", Quoted.ofBytes raw, " as '", specifier.name, "': ",
      misfit.message])
  | .noScalarDecoding specifier =>
    some (.join ["specifier '", specifier.name, "' has no scalar decoding"])
  | .invalidUtf8 raw _ => some (.join [Quoted.ofBytes raw, " is not valid UTF-8"])
  | .emptyByte .fixed => some "index out of range"
  | .emptyByte .growable => some "bytearray index out of range"
  | .emptyByte (.view _) => some "index out of bounds on dimension 1"
  | .notBuffer kind =>
    some (.join ["memoryview: a bytes-like object is required, not '", kind, "'"])
  | .notBytesLike kind =>
    some (.join ["a bytes-like object is required, not '", kind, "'"])
  | .notConvertible kind => some (.join ["cannot convert '", kind, "' object to bytes"])
  | .notSequence kind => some (.join ["'", kind, "' object is not subscriptable"])
  | .emptySequence name => some (.join [name, " index out of range"])
  | .notIndex kind =>
    some (.join ["'", kind, "' object cannot be interpreted as an integer"])
  | .notByteValue => some "bytes must be in range(0, 256)"
  | .notCharacterCode => some "chr() arg not in range(0x110000)"
  | .characterCodeTooLarge => some "Python int too large to convert to C int"
  | .noEncoding => some "string argument without an encoding"
  | .readOnly kind => some (.join ["can't pack into a read-only ", kind])
  | .viewLength =>
    some "memoryview assignment: lvalue and rvalue have different structures"
  | .emptyRecord descriptor => some (.join ["'", descriptor, "' describes an empty record"])
  | .truncatedStream requested available =>
    some (.join ["requested ", Numeral.ofInt requested, " byte(s) but only ",
      Numeral.ofInt available, " available"])
  | .notStream kind =>
    some (.join ["'", kind, "' is the wrong kind of object to use as a stream"])
  | .rawOutput => some "raw bytes can't be used as an output stream, use pack_into() instead"
  | .missingOperation kind operation =>
    some (.join ["'", kind, "' object has no attribute '", operation, "'"])
  | .unsupportedOperation operation => some operation
  | .closedFile text => some text
  | .negativeSeek position => some (.join ["negative seek value ", Numeral.ofInt position])
  | .negativePosition position =>
    some (.join ["negative seek position ", Numeral.ofInt position])
  | .negativeRead => some "read length must be non-negative or -1"
  | .invalidSeek => some "[Errno 22] Invalid argument"
  | .offsetTooLarge => some "cannot fit 'int' into an offset-sized integer"
  | .positionTooLarge => some "Python int too large to convert to C ssize_t"
  | .positionTooLong => some "int too big to convert"
  | .lostPosition => some "can't restore logical file position"
  | .unknownPosition => some "can't reconstruct logical file position"
  | .textRead => some "sequence item 0: expected a bytes-like object, str found"
  | .bytesWritten => some "write() argument must be str, not memoryview"
  | .undecodableText fault => some fault.message
  | .file fault => some fault.message
  | .noProgramName => some "list index out of range"
  | .unshowable _ => some (limitMessage [])

/-- The fault itself, or the digit limit if its message would go beyond that. -/
def limited : Fault → Fault
  | .bufferTooSmall offset size length =>
    if Numeral.Showable offset ∧ Numeral.Showable size then .bufferTooSmall offset size length
    else .unshowable none
  | .truncatedStream requested available =>
    if Numeral.Showable requested ∧ Numeral.Showable available then
      .truncatedStream requested available
    else .unshowable none
  | .unknownByteOrder mark =>
    if mark.showable then .unknownByteOrder mark else .unshowable none
  | .negativePosition position =>
    if Numeral.Showable position then .negativePosition position else .unshowable none
  | .notByte value => if value.showable then .notByte value else .unshowable none
  | .notString value => if value.showable then .notString value else .unshowable none
  | .unpackable value specifier misfit =>
    if value.showable then .unpackable value specifier misfit else .unshowable (some misfit)
  | fault => fault

/-- The detail that is logged before a fault of a number or a text is reported. -/
def detail? : Fault → Option Text
  | .unpackable _ _ misfit => some misfit.message
  | .undecodable _ _ misfit => some misfit.message
  | .invalidUtf8 _ fault => some fault.message
  | .unshowable misfit? => misfit?.map Misfit.message
  | _ => none

/-- The faults of descriptors, fields and streams, as against those of their surroundings. -/
def isOwn : Fault → Bool
  | .descriptorKind _ | .zeroCount _ _ | .unexpectedCharacter _ _ | .unknownSpecifier _
  | .bufferTooSmall _ _ _ | .insufficientValues _ _ | .notByte _ | .notString _
  | .unpackable _ _ _ | .noScalarEncoding _ | .undecodable _ _ _ | .noScalarDecoding _
  | .invalidUtf8 _ _ | .truncatedStream _ _ => true
  | _ => false

end Fault

end BinaryLayout
