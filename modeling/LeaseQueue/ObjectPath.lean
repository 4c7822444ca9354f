import LeaseQueue.Bytes

/-!
# Where objects lie

A key is put under an optional folder, with one slash between them.  An object store then takes the
key apart at its slashes, forgets empty segments, and writes each segment so that it is plain ASCII
and not one of the segments with a meaning of their own.
-/

namespace LeaseQueue

/-- The well-known key of the queue document. -/
def defaultStateKey : String := "queue.json"

namespace ObjectPath

/-! ## Keys under a folder -/

def dropSlashes (cs : List Char) : List Char := cs.dropWhile (· == '/')

/-- Without slashes at either end. -/
def trimSlashes (cs : List Char) : List Char := (dropSlashes (dropSlashes cs).reverse).reverse

/-- The key under the folder; a folder of nothing but slashes is none. -/
def underChars (folder key : List Char) : List Char :=
  match trimSlashes folder with
  | [] => dropSlashes key
  | c :: cs => c :: cs ++ '/' :: dropSlashes key

def under (folder : Option String) (key : String) : String :=
  String.ofList (underChars (folder.getD "").toList key.toList)

/-! ## Segments -/

/-- The pieces between slashes that are not empty. -/
def segments (cs : List Char) : List (List Char) :=
  (cs.splitOn '/').filter (!·.isEmpty)

/-- Octets that are written as a percent sign and two digits. -/
def isReserved (b : UInt8) : Bool :=
  b < 0x20 || 0x7F ≤ b || "\\\x7b^\x7d%`]\">[~<#|*?".toList.any (Bytes.ofChar · == b)

/-- A percent sign and two upper-case hexadecimal digits. -/
def percent (b : UInt8) : List Char :=
  ['%', (Nat.digitChar (b.toNat / 16)).toUpper, (Nat.digitChar (b.toNat % 16)).toUpper]

def encodeOctet (b : UInt8) : List Char :=
  if isReserved b then percent b else [Char.ofNat b.toNat]

/-- One dot and two dots would mean something; they are escaped. -/
def encodeSegment (cs : List Char) : List Char :=
  if cs = ['.'] then percent 0x2E
  else if cs = ['.', '.'] then percent 0x2E ++ percent 0x2E
  else (Bytes.ofText (String.ofList cs)).flatMap encodeOctet

def ofChars (cs : List Char) : List Char :=
  ['/'].intercalate ((segments cs).map encodeSegment)

/-- The path of an object whose key is already under its folder. -/
def ofKey (key : String) : String := String.ofList (ofChars key.toList)

end ObjectPath

end LeaseQueue
