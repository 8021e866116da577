/-
  HybridAccess — the script that prints a lease.

  The negotiating program runs the script on every event. When a lease is
  there, the script prints it line by line. The script is written to a file
  that only its owner may use, and removed at the end.
-/
import HybridAccess.Dhcp.Basic
import HybridAccess.Host.Files
import HybridAccess.Log

namespace HybridAccess.Dhcp.Script

/-- The lines of the script. -/
def lines : List String :=
  ["#!/bin/busybox sh",
    "if [ \"$\x7b1\x7d\" = \"bound\" ]",
    "then",
    "    if [ -n \"$\x7bip\x7d\" ]",
    "    then",
    "        echo \"ip=$\x7bip\x7d\"",
    "        echo \"lease=$\x7blease\x7d\"",
    "    elif [ -n \"$\x7bipv6prefix\x7d\" ]",
    "    then",
    "        echo \"prefix_address=$\x7bipv6prefix%/*\x7d\"",
    "        echo \"prefix_length=$\x7bipv6prefix#*/\x7d\"",
    "        echo \"lease=$\x7bipv6prefix_lease\x7d\"",
    "    fi",
    "fi"]

/-- The text of the script. -/
def text : String := String.join (lines.map (· ++ "\n"))

/-- What the owner of the file may do: everything. Nobody else may do anything. -/
def permissions : Nat := 0o700

/-- The name of the file. -/
def path (directory process : String) : String :=
  Host.Path.join directory ("grecp-client." ++ process ++ ".dhcp.sh")

/-- What is logged when the file is written. -/
def writtenEntry (path : String) : Log.Entry := ⟨.debug, "Wrote DHCP script to " ++ path⟩

/-- What is logged when the file cannot be removed. -/
def notRemovedEntry (path : String) (reason : Host.Failure) : Log.Entry :=
  ⟨.warn, "Failed to remove DHCP script " ++ path ++ ": " ++ reason.message⟩

/-- Write the file. -/
def create (files : Host.Files) (path : String) : Except Failure Host.Files :=
  (files.writeNew path (Bytes.ofText text)).mapError fun reason => .script path reason.message

/-- Remove the file, or say why it cannot be removed. -/
def remove (files : Host.Files) (path : String) : Host.Files × List Log.Entry :=
  match files.remove path with
  | .ok files => (files, [])
  | .error reason => (files, [notRemovedEntry path reason])

end HybridAccess.Dhcp.Script
