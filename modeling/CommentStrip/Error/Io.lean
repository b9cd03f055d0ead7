/-! What the operating system answers when a file operation fails. -/

namespace CommentStrip

/-- The kinds of failure, by what went wrong. -/
inductive IoKind where
  | notFound | permissionDenied | connectionRefused | connectionReset | hostUnreachable
  | networkUnreachable | connectionAborted | notConnected | addrInUse | addrNotAvailable
  | networkDown | brokenPipe | alreadyExists | wouldBlock | notADirectory | isADirectory
  | directoryNotEmpty | readOnlyFilesystem | filesystemLoop | staleNetworkFileHandle
  | invalidInput | invalidData | timedOut | writeZero | storageFull | notSeekable
  | quotaExceeded | fileTooLarge | resourceBusy | executableFileBusy | deadlock
  | crossesDevices | tooManyLinks | invalidFilename | argumentListTooLong | interrupted
  | unsupported | unexpectedEof | outOfMemory | other | uncategorized
  deriving DecidableEq, Repr

namespace IoKind

/-- Every kind with its name. -/
def names : List (IoKind × String) :=
  [(notFound, "NotFound"), (permissionDenied, "PermissionDenied"),
   (connectionRefused, "ConnectionRefused"), (connectionReset, "ConnectionReset"),
   (hostUnreachable, "HostUnreachable"), (networkUnreachable, "NetworkUnreachable"),
   (connectionAborted, "ConnectionAborted"), (notConnected, "NotConnected"),
   (addrInUse, "AddrInUse"), (addrNotAvailable, "AddrNotAvailable"),
   (networkDown, "NetworkDown"), (brokenPipe, "BrokenPipe"), (alreadyExists, "AlreadyExists"),
   (wouldBlock, "WouldBlock"), (notADirectory, "NotADirectory"), (isADirectory, "IsADirectory"),
   (directoryNotEmpty, "DirectoryNotEmpty"), (readOnlyFilesystem, "ReadOnlyFilesystem"),
   (filesystemLoop, "FilesystemLoop"), (staleNetworkFileHandle, "StaleNetworkFileHandle"),
   (invalidInput, "InvalidInput"), (invalidData, "InvalidData"), (timedOut, "TimedOut"),
   (writeZero, "WriteZero"), (storageFull, "StorageFull"), (notSeekable, "NotSeekable"),
   (quotaExceeded, "QuotaExceeded"), (fileTooLarge, "FileTooLarge"),
   (resourceBusy, "ResourceBusy"), (executableFileBusy, "ExecutableFileBusy"),
   (deadlock, "Deadlock"), (crossesDevices, "CrossesDevices"), (tooManyLinks, "TooManyLinks"),
   (invalidFilename, "InvalidFilename"), (argumentListTooLong, "ArgumentListTooLong"),
   (interrupted, "Interrupted"), (unsupported, "Unsupported"), (unexpectedEof, "UnexpectedEof"),
   (outOfMemory, "OutOfMemory"), (other, "Other"), (uncategorized, "Uncategorized")]

def name (k : IoKind) : String := (names.lookup k).getD ""

def ofName? (s : String) : Option IoKind := (names.find? (·.2 == s)).map (·.1)

end IoKind

/-- A failed operation: a numbered answer of the system, or a kind with a text of its own. -/
inductive IoError where
  | system (number : Nat)
  | described (kind : IoKind) (text : String)
  deriving DecidableEq, Repr

namespace IoError

/-- The numbered answers: number, kind, text. -/
def systemTable : List (Nat × IoKind × String) :=
  [(1, .permissionDenied, "Operation not permitted"),
   (2, .notFound, "No such file or directory"),
   (13, .permissionDenied, "Permission denied"),
   (17, .alreadyExists, "File exists"),
   (20, .notADirectory, "Not a directory"),
   (21, .isADirectory, "Is a directory"),
   (28, .storageFull, "No space left on device"),
   (30, .readOnlyFilesystem, "Read-only file system"),
   (36, .invalidFilename, "File name too long"),
   (40, .filesystemLoop, "Too many levels of symbolic links")]

def noSuchFile : IoError := .system 2
def permissionDenied : IoError := .system 13
def fileExists : IoError := .system 17
def notADirectory : IoError := .system 20
def isADirectory : IoError := .system 21
def nameTooLong : IoError := .system 36
def tooManyLinks : IoError := .system 40
def nulInName : IoError := .described .invalidInput "file name contained an unexpected NUL byte"
def notUtf8 : IoError := .described .invalidData "stream did not contain valid UTF-8"
def readOnly : IoError := .described .permissionDenied "file is read-only"

def kind : IoError → IoKind
  | system n => ((systemTable.lookup n).map (·.1)).getD .uncategorized
  | described k _ => k

def message : IoError → String
  | system n =>
    let text := ((systemTable.lookup n).map (·.2)).getD ("Unknown error " ++ toString n)
    text ++ " (os error " ++ toString n ++ ")"
  | described _ text => text

/-- A failure that names the path it is about. -/
def about (e : IoError) (path : String) : IoError :=
  .described e.kind (e.message ++ " at path \"" ++ path ++ "\"")

end IoError

end CommentStrip
