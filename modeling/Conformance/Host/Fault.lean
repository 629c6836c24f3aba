namespace Conformance.Host

inductive Fault where
  | noEntry
  | fileExists
  | notDirectory
  | isDirectory
  | nameTooLong
  | notEmpty
  | tooManyLinks
  | nulInName
  | notText
  | invalidChecksum
  | corruptStream
deriving DecidableEq, Repr

def Fault.message : Fault → String
  | noEntry => "No such file or directory (os error 2)"
  | fileExists => "File exists (os error 17)"
  | notDirectory => "Not a directory (os error 20)"
  | isDirectory => "Is a directory (os error 21)"
  | nameTooLong => "File name too long (os error 36)"
  | notEmpty => "Directory not empty (os error 39)"
  | tooManyLinks => "Too many levels of symbolic links (os error 40)"
  | nulInName => "file name contained an unexpected NUL byte"
  | notText => "stream did not contain valid UTF-8"
  | invalidChecksum => "Invalid checksum"
  | corruptStream => "corrupt deflate stream"

end Conformance.Host
