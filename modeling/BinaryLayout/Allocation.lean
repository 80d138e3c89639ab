import BinaryLayout.Fault

/-!
# Allocation

New bytes are zeros. Their number has to fit a machine word, must not be negative and has to be
within the memory there is. How much that is depends on the machine, and so does how far a file
reaches; nothing here relies on more than that what can be kept can also be set aside.
-/
namespace BinaryLayout

/-- The most bytes that a machine word can count. -/
def greatestSize : Int := 2 ^ 63 - 1

def FitsWord (n : Int) : Prop := -greatestSize - 1 ≤ n ∧ n ≤ greatestSize

instance (n : Int) : Decidable (FitsWord n) := inferInstanceAs (Decidable (_ ∧ _))

/-- The most bytes of a byte string, which takes some room for itself. -/
def greatestString : Int := greatestSize - 33

/-- A machine, by what it has room for. -/
class Host where
  /-- The most bytes that room is set aside for. It is not taken before it is written to, so that
  more of it may be granted than can be kept. -/
  reserve : Nat
  /-- The most bytes that are kept as a value or in a file. -/
  storage : Nat
  /-- The greatest offset in a file. -/
  reach : Nat
  storage_le_reserve : storage ≤ reserve
  storage_le_string : (storage : Int) ≤ greatestString

variable [Host]

/-- So many bytes can be held. -/
def checkMemory (size : Int) : Except Fault Unit :=
  if Host.reserve < size then .error .outOfMemory else .ok ()

/-- So many bytes can be held as a byte string. -/
def checkString (size : Int) : Except Fault Unit :=
  if greatestString < size then .error .stringTooLarge else checkMemory size

/-- How many bytes are granted when so many are asked for. -/
def allocate (size : Int) : Except Fault Nat := do
  if ¬FitsWord size then .error .sizeTooLarge
  else if size < 0 then .error .negativeSize
  else
    checkMemory size
    return size.toNat

/-- So many zeros, which are kept. -/
def keepZeros (n : Nat) : Except Fault Bytes :=
  if Host.storage < n then .error .outOfMemory else .ok (.zeros n)

/-- A byte string of so many zeros. -/
def zeroString (size : Int) : Except Fault Bytes := do
  if ¬FitsWord size then .error .sizeTooLarge
  else if size < 0 then .error .negativeSize
  else
    checkString size
    keepZeros size.toNat

theorem Host.storage_le_size : (Host.storage : Int) ≤ greatestSize :=
  Int.le_trans Host.storage_le_string (by decide)

/-- What can be kept is granted. -/
theorem allocate_of_le {size : Nat} (h : size ≤ Host.storage) : allocate size = .ok size := by
  have hreserve := Host.storage_le_reserve
  have hsize := Host.storage_le_size
  have h1 : FitsWord size := by
    unfold FitsWord
    unfold greatestSize at *
    omega
  have h2 : ¬(size : Int) < 0 := by omega
  have h3 : ¬(Host.reserve : Int) < size := by omega
  simp only [allocate, checkMemory, h1, h2, h3, not_true_eq_false, if_false, Int.toNat_natCast]
  rfl

theorem keepZeros_of_le {n : Nat} (h : n ≤ Host.storage) : keepZeros n = .ok (.zeros n) :=
  if_neg (Nat.not_lt.mpr h)

end BinaryLayout
