/-!
Version windows. An element of a schema is in force from the version that introduced it until
the version that deprecates it, which may never come.
-/

namespace WireSchema

/-- Stands for a deprecation that has not happened. -/
def never : Nat := 0xffffffff

structure Window where
  since : Nat := 0
  deprecated : Nat := never
  deriving DecidableEq, Inhabited

namespace Window

def always : Window := {}

def activeAt (w : Window) (version : Nat) : Bool :=
  w.since ≤ version && version < w.deprecated

def isDeprecated (w : Window) : Bool :=
  w.deprecated < never

end Window

end WireSchema
