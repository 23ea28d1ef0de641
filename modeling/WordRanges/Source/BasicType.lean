/-!
# Basic types of Go

The predeclared types and the types of untyped constants.  The names {lit}`byte` and
{lit}`rune` are further spellings of {lit}`uint8` and {lit}`int32`; a type keeps the
spelling under which it was written.

Main definitions:

- {lit}`BasicType`: the basic types.
- {lit}`BasicType.integer?`: the width and the sign of an integer type.
-/

namespace WordRanges
namespace Source

/-- A basic type. -/
inductive BasicType where
  | invalid | bool
  | int | int8 | int16 | int32 | int64
  | uint | uint8 | uint16 | uint32 | uint64 | uintptr
  | float32 | float64 | complex64 | complex128
  | string | unsafePointer
  | untypedBool | untypedInt | untypedRune | untypedFloat | untypedComplex | untypedString
  | untypedNil
  | byte | rune
deriving DecidableEq, Repr

namespace BasicType

/-- The name of a basic type. -/
def name : BasicType → String
  | .invalid => "invalid type"
  | .bool => "bool"
  | .int => "int"
  | .int8 => "int8"
  | .int16 => "int16"
  | .int32 => "int32"
  | .int64 => "int64"
  | .uint => "uint"
  | .uint8 => "uint8"
  | .uint16 => "uint16"
  | .uint32 => "uint32"
  | .uint64 => "uint64"
  | .uintptr => "uintptr"
  | .float32 => "float32"
  | .float64 => "float64"
  | .complex64 => "complex64"
  | .complex128 => "complex128"
  | .string => "string"
  | .unsafePointer => "Pointer"
  | .untypedBool => "untyped bool"
  | .untypedInt => "untyped int"
  | .untypedRune => "untyped rune"
  | .untypedFloat => "untyped float"
  | .untypedComplex => "untyped complex"
  | .untypedString => "untyped string"
  | .untypedNil => "untyped nil"
  | .byte => "byte"
  | .rune => "rune"

/-- All basic types. -/
def all : List BasicType :=
  [.invalid, .bool, .int, .int8, .int16, .int32, .int64, .uint, .uint8, .uint16, .uint32, .uint64,
    .uintptr, .float32, .float64, .complex64, .complex128, .string, .unsafePointer, .untypedBool,
    .untypedInt, .untypedRune, .untypedFloat, .untypedComplex, .untypedString, .untypedNil, .byte,
    .rune]

/-- The basic type of a given name. -/
def ofName? (s : String) : Option BasicType :=
  all.find? fun b => b.name == s

/-- The type without regard to its spelling. -/
def canonical : BasicType → BasicType
  | .byte => .uint8
  | .rune => .int32
  | b => b

/-- The shape of an integer type. -/
structure IntegerShape where
  /-- The number of bits. -/
  width : Nat
  unsigned : Bool
deriving DecidableEq, Repr

/-- The shape of an integer type; nothing for other types.  Machine-sized integers have
64 bits, and untyped constants are those of {lit}`int64` and {lit}`int32`. -/
def integer? : BasicType → Option IntegerShape
  | .int8 => some ⟨8, false⟩
  | .int16 => some ⟨16, false⟩
  | .int32 | .rune | .untypedRune => some ⟨32, false⟩
  | .int | .int64 | .untypedInt => some ⟨64, false⟩
  | .uint8 | .byte => some ⟨8, true⟩
  | .uint16 => some ⟨16, true⟩
  | .uint32 => some ⟨32, true⟩
  | .uint | .uint64 | .uintptr => some ⟨64, true⟩
  | _ => none

/-- An integer type. -/
def isInteger (b : BasicType) : Bool :=
  b.integer?.isSome

/-- An integer type whose values are compared in unsigned order. -/
def isUnsigned (b : BasicType) : Bool :=
  (b.integer?.map (·.unsigned)).getD false

/-- The type of an untyped constant. -/
def isUntyped : BasicType → Bool
  | .untypedBool | .untypedInt | .untypedRune | .untypedFloat | .untypedComplex | .untypedString
  | .untypedNil => true
  | _ => false

/-- A floating-point type. -/
def isFloat : BasicType → Bool
  | .float32 | .float64 | .untypedFloat => true
  | _ => false

/-- A complex type. -/
def isComplex : BasicType → Bool
  | .complex64 | .complex128 | .untypedComplex => true
  | _ => false

/-- A type of truth values. -/
def isBoolean : BasicType → Bool
  | .bool | .untypedBool => true
  | _ => false

/-- A type of texts. -/
def isString : BasicType → Bool
  | .string | .untypedString => true
  | _ => false

/-- A type of numbers. -/
def isNumeric (b : BasicType) : Bool :=
  b.isInteger || b.isFloat || b.isComplex

/-- A type whose values are ordered. -/
def isOrdered (b : BasicType) : Bool :=
  b.isInteger || b.isFloat || b.isString

/-- A type that constants can have. -/
def isConstType (b : BasicType) : Bool :=
  b.isBoolean || b.isNumeric || b.isString

end BasicType
end Source
end WordRanges
