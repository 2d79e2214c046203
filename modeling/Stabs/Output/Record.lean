import Stabs.Output.Numbering

/-!
# Records

The output is a list of records, one assembler directive each: the source file, the segments of
symbol descriptions, and the markers of nested blocks. A segment is kept as the tokens it was
written with; its text is what the assembler sees.
-/
namespace Stabs

/-- What a record is about, each with the type code of the symbol table. -/
inductive Code where
  | global
  | function
  | staticData
  | staticBss
  | register
  | sourceFile
  | localSymbol
  | parameter
  | leftBracket
  | rightBracket
deriving DecidableEq, Repr

def Code.value : Code → Nat
  | global => 32
  | function => 36
  | staticData => 38
  | staticBss => 40
  | register => 64
  | sourceFile => 100
  | localSymbol => 128
  | parameter => 160
  | leftBracket => 192
  | rightBracket => 224

/-- The value of a symbol: an offset, a register or zero, or an assembler label. -/
inductive Placement where
  | number (n : Int)
  | address (label : String)
deriving DecidableEq, Repr

def Placement.text : Placement → String
  | number n => n.repr
  | address label => label

/-- The categories of types with members, which can be referred to by name. -/
inductive Aggregate where
  | record
  | union
  | enumeration
deriving DecidableEq, Repr

def Aggregate.letter : Aggregate → String
  | record => "s"
  | union => "u"
  | enumeration => "e"

/-- The pieces that descriptions are made of. A type reference is a `number`, followed by `equals`
and a body where the type is introduced. -/
inductive Token where
  | heading (name : String) (letter : Option Char)
  | number (n : TypeNumber)
  | equals
  | crossReference (category : Aggregate) (name : String)
  | itself (n : TypeNumber)
  | range (base : TypeNumber) (low high : Int)
  | bounds (upper : Int)
  | aggregate (category : Aggregate) (size : Nat)
  | member (name : String)
  | extent (bitOffset bitSize : Nat)
  | enumeration
  | enumerator (name : String) (value : Int)
  | close
  | pointer
  | function
  | raw (text : String)
deriving DecidableEq, Repr

def Token.text : Token → String
  | heading name none => name ++ ":"
  | heading name (some letter) => name ++ ":" ++ letter.toString
  | number n => n.value.repr
  | equals => "="
  | crossReference category name => "x" ++ category.letter ++ name ++ ":"
  | itself n => n.value.repr
  | range base low high => "r" ++ base.value.repr ++ ";" ++ low.repr ++ ";" ++ high.repr ++ ";"
  | bounds upper => "ar" ++ TypeNumber.int.value.repr ++ ";0;" ++ upper.repr ++ ";"
  | aggregate category size => category.letter ++ size.repr
  | member name => name ++ ":"
  | extent bitOffset bitSize => "," ++ bitOffset.repr ++ "," ++ bitSize.repr ++ ";"
  | enumeration => "e"
  | enumerator name value => name ++ ":" ++ value.repr ++ ","
  | close => ";"
  | pointer => "*"
  | function => "f"
  | raw text => text

/-- A description, or a part of one that stands between two cuts. -/
abbrev Segment := List Token

namespace Segment

def text (segment : Segment) : String := String.join (segment.map Token.text)

/-- The length of a segment in bytes. -/
def size : Segment → Nat
  | [] => 0
  | token :: rest => token.text.utf8ByteSize + size rest

end Segment

/-- One directive. More segments of the same description follow a symbol record that is
continued. -/
inductive Record where
  | sourceFile (path label : String)
  | symbol (segment : Segment) (code : Code) (value : Placement) (continued : Bool)
  | marker (code : Code) (label : String)
deriving DecidableEq, Repr

namespace Record

def code : Record → Code
  | sourceFile _ _ => .sourceFile
  | symbol _ code _ _ => code
  | marker code _ => code

def text? : Record → Option String
  | symbol segment _ _ _ => some (Segment.text segment)
  | _ => none

/-- The directive; two backslashes end the text of a segment that is continued. -/
def render : Record → String
  | sourceFile path label =>
    label ++ ":\t.stabs \"" ++ path ++ "\"," ++ Code.sourceFile.value.repr ++ ",0,0," ++ label
  | symbol segment code value continued =>
    ".stabs \"" ++ Segment.text segment ++ (if continued then "\\\\" else "") ++ "\"," ++
      code.value.repr ++ ",0,0," ++ value.text
  | marker code label => ".stabn " ++ code.value.repr ++ ",0,0," ++ label

/-- The assembler text of a list of records, one directive a line. -/
def renderAll (records : List Record) : String :=
  String.join (records.map fun record => record.render ++ "\n")

end Record

end Stabs
