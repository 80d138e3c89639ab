import BinaryLayout.Allocation
import BinaryLayout.Bytes

/-!
# The machine of the program

The machine that the program runs on, and the way in which it writes bits. They are data of its
outer layer: what the program does is defined, and its properties are stated, for any machine and
any such way. The numbers here are those of one machine, for runs of the program and for examples.
-/
namespace BinaryLayout

instance machine : Host where
  reserve := 2 ^ 35 - 1
  storage := 2 ^ 30
  reach := 2 ^ 44 - 2 ^ 12
  storage_le_reserve := by decide
  storage_le_string := by decide

/-- The eight bits of a byte, the one of the greatest weight first. -/
def eightBits (b : UInt8) : Text :=
  (List.range 8).map fun place => bitDigit (b.toNat.testBit (7 - place))

instance bitText : BitText := ⟨fun data => data.flatMap eightBits⟩

theorem bitText_inOrder : BitText.InOrder where
  append _ _ := List.flatMap_append
  byte b := List.flatMap_singleton eightBits b

end BinaryLayout
