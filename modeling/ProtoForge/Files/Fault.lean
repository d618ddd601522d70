import ProtoForge.Text.Quoted

/-!
# Faults

Why an operation on files or archives fails.
-/
namespace ProtoForge.Files

/-- The cause of a failed operation on files. -/
inductive Fault where
  | missing
  | busy
  | alreadyExists
  | notDirectory
  | isDirectory
  | invalidArgument
  | nameTooLong
  | notEmpty
  | tooManyLinks
  | nulInName
  | notText
  | endOfFile
  | noArchiveDirectory
  | noArchiveEntry
  | walking (path : String) (cause : Fault)
  | creating (path : String) (cause : Fault)
  deriving DecidableEq, Repr

/-- The wording of a fault. -/
def Fault.message : Fault → String
  | missing => "No such file or directory (os error 2)"
  | busy => "Device or resource busy (os error 16)"
  | alreadyExists => "File exists (os error 17)"
  | notDirectory => "Not a directory (os error 20)"
  | isDirectory => "Is a directory (os error 21)"
  | invalidArgument => "Invalid argument (os error 22)"
  | nameTooLong => "File name too long (os error 36)"
  | notEmpty => "Directory not empty (os error 39)"
  | tooManyLinks => "Too many levels of symbolic links (os error 40)"
  | nulInName => "file name contained an unexpected NUL byte"
  | notText => "stream did not contain valid UTF-8"
  | endOfFile => "failed to fill whole buffer"
  | noArchiveDirectory => "invalid Zip archive: Could not find EOCD"
  | noArchiveEntry => "specified file not found in archive"
  | walking path cause => "IO error for operation on " ++ path ++ ": " ++ cause.message
  | creating path cause => cause.message ++ " at path " ++ Text.quotedPath path

/-- The wording of a fault met while opening an archive: only faults of the archive are named. -/
def Fault.archiveMessage : Fault → String
  | noArchiveDirectory => Fault.message .noArchiveDirectory
  | noArchiveEntry => Fault.message .noArchiveEntry
  | _ => "i/o error"

end ProtoForge.Files
