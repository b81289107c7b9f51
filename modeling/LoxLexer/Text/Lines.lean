/-!
# Lines of a byte stream

A stream is cut at every line feed, and one carriage return right before a line feed goes with it.
What follows the last line feed is a line only if it is not empty, and keeps its carriage return.
Each line is decoded by itself, so a line that is not valid UTF-8 spoils no other.

* `decodeLines` is `lines` of a buffered reader, and `decode` what `read_to_string` asks of a file.
* `joinLines` puts lines together as the prompt does.

Results:
* `splitLines` — the cut, the same for bytes and for characters.
* `decodeLines` — the lines of a stream, decoded or found undecodable one by one.

Out of scope: a stream that fails while it is read. `Line` has room for its errors, but `decodeLines`
is about the bytes that were read and makes none.
-/

namespace LoxLexer

/-- Why bytes are not a text. -/
inductive DecodeError where
  | invalidUtf8
deriving DecidableEq, Repr

/-- The wording of a decoding error. -/
def DecodeError.message : DecodeError → String
  | invalidUtf8 => "stream did not contain valid UTF-8"

/-- A line as it was read: its text, or why it has none. A stream may fail for other reasons than
decoding. -/
abbrev Line (ε : Type := DecodeError) := Except ε String

instance {ε : Type} [DecidableEq ε] : DecidableEq (Line ε)
  | .ok s, .ok t => decidable_of_iff (s = t) (by simp)
  | .error e, .error f => decidable_of_iff (e = f) (by simp)
  | .ok _, .error _ => isFalse (by simp)
  | .error _, .ok _ => isFalse (by simp)

/-- Takes one carriage return off the end. -/
def dropReturn {α : Type} [DecidableEq α] (cr : α) (line : List α) : List α :=
  if line.getLast? = some cr then line.dropLast else line

/-- The lines of a text without their ends. -/
def splitLines {α : Type} [DecidableEq α] (lf cr : α) (text : List α) : List (List α) :=
  let pieces := text.splitOn lf
  pieces.dropLast.map (dropReturn cr) ++ (pieces.getLast?.toList.filter fun last => !last.isEmpty)

/-- The text that bytes encode in UTF-8. -/
def decode (bytes : ByteArray) : Except DecodeError String :=
  match String.fromUTF8? bytes with
  | some text => .ok text
  | none => .error .invalidUtf8

/-- The lines of a byte stream. -/
def decodeLines (bytes : ByteArray) : List Line :=
  (splitLines 0x0A 0x0D bytes.data.toList).map fun line => decode ⟨line.toArray⟩

/-- Lines put together again, a line feed between each two. -/
def joinLines (lines : List String) : String := "\n".intercalate lines

end LoxLexer
