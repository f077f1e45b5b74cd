import UnitCache.Text.Utf8

namespace UnitCache

inductive Fault where
  | notFound
  | exists
  | notDirectory
  | isDirectory
  | nameTooLong
  | tooManyLinks
  /-- A path with a NUL in it. -/
  | nulInPath
  /-- A file that should hold text but is not UTF-8. -/
  | notText
  /-- Bytes that should be text, with the place where they are not. -/
  | badText (fault : Utf8.Fault)
  | gzipHeader
  | unexpectedEnd
  | deflateIncomplete
  | deflateCorrupt
  | gzipChecksum
  /-- An archive entry whose content does not have its checksum. -/
  | entryChecksum
  | other (text : String)
  deriving DecidableEq, Repr

namespace Fault

/-- A refusal of the operating system with its number. -/
def numbered (text : String) (code : Nat) : String := text ++ " (os error " ++ toString code ++ ")"

def message : Fault → String
  | .notFound => numbered "No such file or directory" 2
  | .exists => numbered "File exists" 17
  | .notDirectory => numbered "Not a directory" 20
  | .isDirectory => numbered "Is a directory" 21
  | .nameTooLong => numbered "File name too long" 36
  | .tooManyLinks => numbered "Too many levels of symbolic links" 40
  | .nulInPath => "file name contained an unexpected NUL byte"
  | .notText => "stream did not contain valid UTF-8"
  | .badText f => f.message
  | .gzipHeader => "invalid gzip header"
  | .unexpectedEnd => "unexpected end of file"
  | .deflateIncomplete => "incomplete deflate stream"
  | .deflateCorrupt => "corrupt deflate stream"
  | .gzipChecksum => "corrupt gzip stream does not have a matching checksum"
  | .entryChecksum => "Invalid checksum"
  | .other text => text

end Fault
end UnitCache
