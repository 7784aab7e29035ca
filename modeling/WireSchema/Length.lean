/-!
Lengths in bytes. They stop at the largest word, which means that there is no bound. Widths in bits
do not: they are added and multiplied as words, from which a carry is lost.
-/

namespace WireSchema.Length

/-- The length that stands for no bound. -/
def unbounded : Nat := 0xffffffffffffffff

def add (a b : Nat) : Nat := min (a + b) unbounded

def mul (a b : Nat) : Nat := min (a * b) unbounded

def sum (lengths : List Nat) : Nat := lengths.foldl add 0

def wordCount : Nat := 0x10000000000000000

def addWords (a b : Nat) : Nat := (a + b) % wordCount

def mulWords (a b : Nat) : Nat := (a * b) % wordCount

def sumWords (widths : List Nat) : Nat := widths.foldl addWords 0

end WireSchema.Length
