/-!
# Access Flags

The flag word of a class, field or method has one bit per modifier. At most one of the public,
private and protected bits is set in a legal word; none of them means package access.

## Main definitions

* `Flags.publicBit`, `Flags.privateBit`, …: The bits that widening looks at.
* `Flags.makePublic`, `Flags.makeProtected`, `Flags.removeFinal`, `Flags.makeFinalIfPrivate`: The
  rules that widening is made of.
-/

namespace AccessWidener

namespace Flags

/-- Visible everywhere. -/
def publicBit : UInt16 := 0x0001

/-- Visible in its own class only. -/
def privateBit : UInt16 := 0x0002

/-- Visible in subclasses and in its own package. -/
def protectedBit : UInt16 := 0x0004

/-- Belongs to the class and not to its instances. -/
def staticBit : UInt16 := 0x0008

/-- Not to be extended, overridden or assigned. -/
def finalBit : UInt16 := 0x0010

/-- The class is an interface. -/
def interfaceBit : UInt16 := 0x0200

/-- The three bits that spell a visibility. -/
def visibilityMask : UInt16 := publicBit ||| privateBit ||| protectedBit

/-- Whether a modifier bit is set. -/
def has (flags bit : UInt16) : Bool :=
  flags &&& bit ≠ 0

/-- Public, whatever the visibility was. -/
def makePublic (flags : UInt16) : UInt16 :=
  (flags &&& ~~~visibilityMask) ||| publicBit

/-- Protected, unless already public. -/
def makeProtected (flags : UInt16) : UInt16 :=
  if has flags publicBit then flags else (flags &&& ~~~visibilityMask) ||| protectedBit

/-- Without the final bit. -/
def removeFinal (flags : UInt16) : UInt16 :=
  flags &&& ~~~finalBit

/-- Whether a name is that of an instance or class initialiser. -/
def isInitializer (name : String) : Bool :=
  name = "<init>" || name = "<clinit>"

/-- Final, if the word belongs to a private instance method that is no initialiser. Such a method
    could not be overridden while it was private, and must not be once it is visible. -/
def makeFinalIfPrivate (flags : UInt16) (name : String) : UInt16 :=
  if has flags privateBit && !has flags staticBit && !isInitializer name then flags ||| finalBit
  else flags

end Flags

end AccessWidener
