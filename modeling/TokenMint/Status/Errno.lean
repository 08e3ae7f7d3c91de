import TokenMint.Concat
import TokenMint.Status.Code

/-!
# System error numbers

The numbers that a failed system call reports, the sentence that the system has
for each, and the outcome codes of the few that clocks, random devices and file
descriptors can plausibly produce.
-/

namespace TokenMint

/-- The number of a failed system call. -/
abbrev Errno := Int

namespace Errno

/-- The call was interrupted by a signal. -/
def interrupted : Errno := 4

/-- The device failed. -/
def ioFailure : Errno := 5

/-- The kernel does not have the call. -/
def unimplemented : Errno := 38

/-- The name and the outcome code of a classified error number. -/
def classify (number : Errno) : Option (Bytes × Code) :=
  match number with
  | 1 => some (ascii "EPERM", Code.permissionDenied)
  | 2 => some (ascii "ENOENT", Code.notFound)
  | 4 => some (ascii "EINTR", Code.aborted)
  | 5 => some (ascii "EIO", Code.dataLoss)
  | 9 => some (ascii "EBADF", Code.invalidArgument)
  | 11 => some (ascii "EAGAIN", Code.unavailable)
  | 12 => some (ascii "ENOMEM", Code.resourceExhausted)
  | 13 => some (ascii "EACCES", Code.permissionDenied)
  | 14 => some (ascii "EFAULT", Code.invalidArgument)
  | 19 => some (ascii "ENODEV", Code.notFound)
  | 22 => some (ascii "EINVAL", Code.invalidArgument)
  | 23 => some (ascii "ENFILE", Code.resourceExhausted)
  | 24 => some (ascii "EMFILE", Code.resourceExhausted)
  | 38 => some (ascii "ENOSYS", Code.notImplemented)
  | _ => none

/-- The outcome code of an error number. -/
def code (number : Errno) : Code :=
  match classify number with
  | some (_, code) => code
  | none => Code.unknown

/-- How an error number is written: its name if it has one, else a number. -/
def label (number : Errno) : Bytes :=
  match classify number with
  | some (name, _) => name
  | none => concat ["#", .signed number.toInt64]

/-- The sentence that the system has for an error number. -/
def text (number : Errno) : Bytes :=
  match number with
  | 0 => ascii "Success"
  | 1 => ascii "Operation not permitted"
  | 2 => ascii "No such file or directory"
  | 3 => ascii "No such process"
  | 4 => ascii "Interrupted system call"
  | 5 => ascii "Input/output error"
  | 6 => ascii "No such device or address"
  | 7 => ascii "Argument list too long"
  | 8 => ascii "Exec format error"
  | 9 => ascii "Bad file descriptor"
  | 10 => ascii "No child processes"
  | 11 => ascii "Resource temporarily unavailable"
  | 12 => ascii "Cannot allocate memory"
  | 13 => ascii "Permission denied"
  | 14 => ascii "Bad address"
  | 15 => ascii "Block device required"
  | 16 => ascii "Device or resource busy"
  | 17 => ascii "File exists"
  | 18 => ascii "Invalid cross-device link"
  | 19 => ascii "No such device"
  | 20 => ascii "Not a directory"
  | 21 => ascii "Is a directory"
  | 22 => ascii "Invalid argument"
  | 23 => ascii "Too many open files in system"
  | 24 => ascii "Too many open files"
  | 25 => ascii "Inappropriate ioctl for device"
  | 26 => ascii "Text file busy"
  | 27 => ascii "File too large"
  | 28 => ascii "No space left on device"
  | 29 => ascii "Illegal seek"
  | 30 => ascii "Read-only file system"
  | 31 => ascii "Too many links"
  | 32 => ascii "Broken pipe"
  | 33 => ascii "Numerical argument out of domain"
  | 34 => ascii "Numerical result out of range"
  | 35 => ascii "Resource deadlock avoided"
  | 36 => ascii "File name too long"
  | 37 => ascii "No locks available"
  | 38 => ascii "Function not implemented"
  | 39 => ascii "Directory not empty"
  | 40 => ascii "Too many levels of symbolic links"
  | 42 => ascii "No message of desired type"
  | 43 => ascii "Identifier removed"
  | 44 => ascii "Channel number out of range"
  | 45 => ascii "Level 2 not synchronized"
  | 46 => ascii "Level 3 halted"
  | 47 => ascii "Level 3 reset"
  | 48 => ascii "Link number out of range"
  | 49 => ascii "Protocol driver not attached"
  | 50 => ascii "No CSI structure available"
  | 51 => ascii "Level 2 halted"
  | 52 => ascii "Invalid exchange"
  | 53 => ascii "Invalid request descriptor"
  | 54 => ascii "Exchange full"
  | 55 => ascii "No anode"
  | 56 => ascii "Invalid request code"
  | 57 => ascii "Invalid slot"
  | 59 => ascii "Bad font file format"
  | 60 => ascii "Device not a stream"
  | 61 => ascii "No data available"
  | 62 => ascii "Timer expired"
  | 63 => ascii "Out of streams resources"
  | 64 => ascii "Machine is not on the network"
  | 65 => ascii "Package not installed"
  | 66 => ascii "Object is remote"
  | 67 => ascii "Link has been severed"
  | 68 => ascii "Advertise error"
  | 69 => ascii "Srmount error"
  | 70 => ascii "Communication error on send"
  | 71 => ascii "Protocol error"
  | 72 => ascii "Multihop attempted"
  | 73 => ascii "RFS specific error"
  | 74 => ascii "Bad message"
  | 75 => ascii "Value too large for defined data type"
  | 76 => ascii "Name not unique on network"
  | 77 => ascii "File descriptor in bad state"
  | 78 => ascii "Remote address changed"
  | 79 => ascii "Can not access a needed shared library"
  | 80 => ascii "Accessing a corrupted shared library"
  | 81 => ascii ".lib section in a.out corrupted"
  | 82 => ascii "Attempting to link in too many shared libraries"
  | 83 => ascii "Cannot exec a shared library directly"
  | 84 => ascii "Invalid or incomplete multibyte or wide character"
  | 85 => ascii "Interrupted system call should be restarted"
  | 86 => ascii "Streams pipe error"
  | 87 => ascii "Too many users"
  | 88 => ascii "Socket operation on non-socket"
  | 89 => ascii "Destination address required"
  | 90 => ascii "Message too long"
  | 91 => ascii "Protocol wrong type for socket"
  | 92 => ascii "Protocol not available"
  | 93 => ascii "Protocol not supported"
  | 94 => ascii "Socket type not supported"
  | 95 => ascii "Operation not supported"
  | 96 => ascii "Protocol family not supported"
  | 97 => ascii "Address family not supported by protocol"
  | 98 => ascii "Address already in use"
  | 99 => ascii "Cannot assign requested address"
  | 100 => ascii "Network is down"
  | 101 => ascii "Network is unreachable"
  | 102 => ascii "Network dropped connection on reset"
  | 103 => ascii "Software caused connection abort"
  | 104 => ascii "Connection reset by peer"
  | 105 => ascii "No buffer space available"
  | 106 => ascii "Transport endpoint is already connected"
  | 107 => ascii "Transport endpoint is not connected"
  | 108 => ascii "Cannot send after transport endpoint shutdown"
  | 109 => ascii "Too many references: cannot splice"
  | 110 => ascii "Connection timed out"
  | 111 => ascii "Connection refused"
  | 112 => ascii "Host is down"
  | 113 => ascii "No route to host"
  | 114 => ascii "Operation already in progress"
  | 115 => ascii "Operation now in progress"
  | 116 => ascii "Stale file handle"
  | 117 => ascii "Structure needs cleaning"
  | 118 => ascii "Not a XENIX named type file"
  | 119 => ascii "No XENIX semaphores available"
  | 120 => ascii "Is a named type file"
  | 121 => ascii "Remote I/O error"
  | 122 => ascii "Disk quota exceeded"
  | 123 => ascii "No medium found"
  | 124 => ascii "Wrong medium type"
  | 125 => ascii "Operation canceled"
  | 126 => ascii "Required key not available"
  | 127 => ascii "Key has expired"
  | 128 => ascii "Key has been revoked"
  | 129 => ascii "Key was rejected by service"
  | 130 => ascii "Owner died"
  | 131 => ascii "State not recoverable"
  | 132 => ascii "Operation not possible due to RF-kill"
  | 133 => ascii "Memory page has hardware error"
  | _ => concat ["Unknown error ", .signed number.toInt64]

end Errno

end TokenMint
