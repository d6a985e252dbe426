import SshAuthority.Host.Fault
/-!
# Reading and writing files

The file operations the commands need, for any effect they may have. A write first opens the file and
then stores into it, and its fault says at which of the two it failed.
-/
namespace SshAuthority.Host

inductive WriteMode where
  /-- Replaces the content, creating the file if needed. -/
  | replace
  /-- Replaces the content; a file created for it can be read by its owner only. -/
  | privately
  /-- Adds to the end, creating the file if needed. -/
  | append
  deriving DecidableEq, Repr

inductive WriteFault where
  | opening (fault : Fault)
  | storing (fault : Fault)
  deriving DecidableEq, Repr

def WriteFault.fault : WriteFault → Fault
  | .opening fault | .storing fault => fault

structure Files (m : Type → Type) where
  /-- Whether the path names a directory; a path that names nothing is a fault. -/
  isDirectory : Bytes → m (Except Fault Bool)
  read : Bytes → m (Except Fault Bytes)
  write : WriteMode → Bytes → Bytes → m (Except WriteFault Unit)

end SshAuthority.Host
